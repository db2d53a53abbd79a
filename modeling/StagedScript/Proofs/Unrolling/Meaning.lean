import StagedScript.Proofs.Tables
import StagedScript.Proofs.Unrolling.Calls

/-!
# Unrolling preserves meaning

Where the names of unrolled loops stand for the values that were counted, and are bound nowhere in
the code, executing unrolled code ends as executing the code does, and leaves the same store behind
but for the bodies of the functions that it defines.
-/

namespace StagedScript

namespace Stmt

mutual

/-- The names that a statement binds, at any depth: targets, parameters, functions and classes. -/
def bindsDeep : Stmt → List String
  | assign _ ts _ => Expr.storesAll ts
  | each _ t _ b e => t.stores ++ bindsDeepAll b ++ bindsDeepAll e
  | cond _ _ a b => bindsDeepAll a ++ bindsDeepAll b
  | loop _ _ b => bindsDeepAll b
  | define _ x _ ps b => x :: Param.names ps ++ bindsDeepAll b
  | class_ _ x _ b => x :: bindsDeepAll b
  | expr _ _ | pass _ | ret _ _ | brk _ | cont _ => []

/-- The names that statements bind, at any depth. -/
def bindsDeepAll : List Stmt → List String
  | [] => []
  | s :: ss => bindsDeep s ++ bindsDeepAll ss

end

mutual

/-- Wherever in the statement a loop runs over a name of the table, the name stands there for its
value, a tuple or a text that is not empty. -/
def Finds (values : Table Value) (σ : Sight) : Stmt → Prop
  | each _ _ i b e =>
    (∀ at_ x v, i = .name at_ x → values.get? x = some v → σ.find? x = some v ∧
      ∃ n, v.Counts n ∧ 0 < n ∧ n < Run.lengthLimit) ∧
    FindsAll values σ b ∧ FindsAll values σ e
  | cond _ _ a b => FindsAll values σ a ∧ FindsAll values σ b
  | loop _ _ b => FindsAll values σ b
  | define _ name ds ps b =>
    FindsAll values (σ.inFunction (Definition.freeNames ⟨name, ds, ps, b⟩)) b
  | class_ _ _ _ b => FindsAll values σ.inClass b
  | expr _ _ | assign _ _ _ | pass _ | ret _ _ | brk _ | cont _ => True

/-- Wherever in the statements a loop runs over a name of the table, the name stands there for its
value. -/
def FindsAll (values : Table Value) (σ : Sight) : List Stmt → Prop
  | [] => True
  | s :: ss => Finds values σ s ∧ FindsAll values σ ss

end

mutual

theorem binds_subset_bindsDeep (s : Stmt) : ∀ x ∈ binds s, x ∈ bindsDeep s := by
  cases s with
  | expr _ _ | assign _ _ _ | pass _ | ret _ _ | brk _ | cont _ => exact fun _ hx => hx
  | define _ _ _ _ _ | class_ _ _ _ _ => exact fun x hx => by simp_all [binds, bindsDeep]
  | cond span test a b =>
    intro x hx
    exact (List.mem_append.1 hx).elim
      (fun hx => List.mem_append_left _ (bindsAll_subset_bindsDeepAll a x hx))
      fun hx => List.mem_append_right _ (bindsAll_subset_bindsDeepAll b x hx)
  | loop span test b => exact bindsAll_subset_bindsDeepAll b
  | each span target iter b e =>
    intro x hx
    simp only [binds, bindsDeep, List.mem_append] at hx ⊢
    exact hx.imp (Or.imp id (bindsAll_subset_bindsDeepAll b x)) (bindsAll_subset_bindsDeepAll e x)

theorem bindsAll_subset_bindsDeepAll (b : List Stmt) : ∀ x ∈ bindsAll b, x ∈ bindsDeepAll b := by
  cases b with
  | nil => exact fun _ hx => hx
  | cons s ss =>
    intro x hx
    exact (List.mem_append.1 hx).elim
      (fun hx => List.mem_append_left _ (binds_subset_bindsDeep s x hx))
      fun hx => List.mem_append_right _ (bindsAll_subset_bindsDeepAll ss x hx)

end

end Stmt

theorem Closure.counts_of_extentOf {s : Store} {v : Value} {n : Nat}
    (hv : Closure.extentOf s v = .sized n) : v.Counts n := by
  cases v <;> simp only [Closure.extentOf, reduceCtorEq, Extent.sized.injEq] at hv
  case tuple id items => exact hv
  case str id text => exact hv

theorem Value.Counts.unique {v : Value} {n n' : Nat} (hn : v.Counts n) (hn' : v.Counts n') :
    n = n' := by
  cases v <;> first | exact hn.symm.trans hn' | exact hn.elim

variable {values : Table Value}

namespace Stmt

mutual

theorem Finds.nonempty {st : Store} {σ : Sight} (s : Stmt) (hs : s.Finds values σ) :
    ∀ x ∈ s.iterates, (values.map (Closure.extentOf st)).get? x ≠ some (.sized 0) := by
  cases s with
  | expr _ _ | assign _ _ _ | pass _ | ret _ _ | brk _ | cont _ =>
    intro x hx
    cases hx
  | cond span test a b =>
    intro x hx
    exact (List.mem_append.1 hx).elim (FindsAll.nonempty a hs.1 x) (FindsAll.nonempty b hs.2 x)
  | loop span test b => exact FindsAll.nonempty b hs
  | define span name ds ps b => exact FindsAll.nonempty b hs
  | class_ span name base b => exact FindsAll.nonempty b hs
  | each span target iter b e =>
    intro x hx hzero
    rw [iterates, List.mem_append, List.mem_append] at hx
    rcases hx with (hx | hx) | hx
    · obtain ⟨at_, rfl⟩ := Expr.mem_alone.1 hx
      rw [Table.get?_map] at hzero
      obtain ⟨v, hv, hextent⟩ := Option.map_eq_some_iff.1 hzero
      obtain ⟨-, n, hn, hpos, -⟩ := hs.1 at_ x v rfl hv
      have := hn.unique (Closure.counts_of_extentOf hextent)
      omega
    · exact FindsAll.nonempty b hs.2.1 x hx hzero
    · exact FindsAll.nonempty e hs.2.2 x hx hzero

/-- What a loop finds is not nothing. -/
theorem FindsAll.nonempty {st : Store} {σ : Sight} (b : List Stmt) (hb : FindsAll values σ b) :
    ∀ x ∈ iteratesAll b, (values.map (Closure.extentOf st)).get? x ≠ some (.sized 0) := by
  cases b with
  | nil =>
    intro x hx
    cases hx
  | cons s ss =>
    intro x hx
    exact (List.mem_append.1 hx).elim (Finds.nonempty s hb.1 x) (FindsAll.nonempty ss hb.2 x)

end

/-- The names of the table that loops run over are neither hidden nor bound at any depth. -/
def Clear (values : Table Value) (hidden : String → Prop) (b : List Stmt) : Prop :=
  ∀ x ∈ iteratesAll b, values.contains x = true → ¬ hidden x ∧ x ∉ bindsDeepAll b

theorem Clear.part {hidden : String → Prop} {b b' : List Stmt} (hb : Clear values hidden b)
    (hiterates : ∀ x ∈ iteratesAll b', x ∈ iteratesAll b)
    (hbinds : ∀ x ∈ bindsDeepAll b', x ∈ bindsDeepAll b) : Clear values hidden b' :=
  fun x hx hv => ⟨(hb x (hiterates x hx) hv).1, fun hx' =>
    (hb x (hiterates x hx) hv).2 (hbinds x hx')⟩

/-- Names that are bound further inside are hidden there, but they are others. -/
theorem Clear.inside {hidden hidden' : String → Prop} {b : List Stmt} (hb : Clear values hidden b)
    {b' : List Stmt} (hiterates : ∀ x ∈ iteratesAll b', x ∈ iteratesAll b)
    (hbinds : ∀ x ∈ bindsDeepAll b', x ∈ bindsDeepAll b)
    (hhidden : ∀ x, hidden' x → hidden x ∨ x ∈ bindsDeepAll b) : Clear values hidden' b' :=
  fun x hx hv => ⟨fun hx' => (hhidden x hx').elim (hb x (hiterates x hx) hv).1
    (hb x (hiterates x hx) hv).2, fun hx' => (hb x (hiterates x hx) hv).2 (hbinds x hx')⟩

end Stmt

/-- Loops that find the values that were counted are resolved, if their names are not bound. -/
theorem Unrolls.resolvedAll {st : Store} {b b' : List Stmt}
    (hb : Unrolls (values.map (Closure.extentOf st)) b b') {c : Surroundings}
    (hplaced : Stmt.misplacedIn? c b = none) {σ : Sight} (hfinds : Stmt.FindsAll values σ b)
    {hidden : String → Prop} (hclear : Stmt.Clear values hidden b) :
    Stmt.ResolvedAll (values.map (Closure.extentOf st)) hidden σ b := by
  induction hb generalizing c σ hidden with
  | nil => exact trivial
  | @plain s ss ss' hs _ ih =>
    obtain ⟨-, hpss⟩ := Option.or_eq_none_iff.1 hplaced
    refine ⟨?_, ih hpss hfinds.2 (hclear.part ?_ ?_)⟩
    · cases s <;> first | exact trivial | cases hs
    · exact fun x hx => List.mem_append_right _ hx
    · exact fun x hx => List.mem_append_right _ hx
  | @cond span test a a' e e' ss ss' _ _ _ iha ihe ih =>
    obtain ⟨hps, hpss⟩ := Option.or_eq_none_iff.1 hplaced
    obtain ⟨hpa, hpe⟩ := Option.or_eq_none_iff.1 hps
    refine ⟨⟨iha hpa hfinds.1.1 (hclear.part ?_ ?_), ihe hpe hfinds.1.2 (hclear.part ?_ ?_)⟩,
      ih hpss hfinds.2 (hclear.part ?_ ?_)⟩
    all_goals
      intro x hx
      simp [Stmt.iteratesAll, Stmt.iterates, Stmt.bindsDeepAll, Stmt.bindsDeep, hx]
  | @loop span test body body' ss ss' _ _ ihb ih =>
    obtain ⟨hps, hpss⟩ := Option.or_eq_none_iff.1 hplaced
    refine ⟨ihb hps hfinds.1 (hclear.part ?_ ?_), ih hpss hfinds.2 (hclear.part ?_ ?_)⟩
    all_goals
      intro x hx
      simp [Stmt.iteratesAll, Stmt.iterates, Stmt.bindsDeepAll, Stmt.bindsDeep, hx]
  | @each span target iter body body' els els' ss ss' hiter _ _ _ ihb ihe ih =>
    obtain ⟨hps, hpss⟩ := Option.or_eq_none_iff.1 hplaced
    obtain ⟨hpb, hpe⟩ := Option.or_eq_none_iff.1 hps
    obtain ⟨⟨-, hfb, hfe⟩, hfss⟩ := hfinds
    refine ⟨⟨fun x n hx => ?_, ihb hpb hfb (hclear.part ?_ ?_), ihe hpe hfe (hclear.part ?_ ?_)⟩,
      ih hpss hfss (hclear.part ?_ ?_)⟩
    · rw [hiter] at hx
      cases hx
    all_goals
      intro x hx
      simp [Stmt.iteratesAll, Stmt.iterates, Stmt.bindsDeepAll, Stmt.bindsDeep, hx]
  | @rounds span at_ target x n body body' ss ss' hx hn hexit _ _ ihb ih =>
    obtain ⟨hps, hpss⟩ := Option.or_eq_none_iff.1 hplaced
    obtain ⟨hpb, -⟩ := Option.or_eq_none_iff.1 hps
    obtain ⟨⟨hfx, hfb, -⟩, hfss⟩ := hfinds
    refine ⟨⟨fun y m hy => ?_, ihb hpb hfb (hclear.part ?_ ?_), trivial⟩,
      ih hpss hfss (hclear.part ?_ ?_)⟩
    · -- The name is found as the value that was counted, since nothing on the way hides it.
      obtain ⟨at', heq, hget⟩ := known?_eq_some hy
      cases heq
      rw [Table.get?_map] at hget
      obtain ⟨v, hv, hextent⟩ := Option.map_eq_some_iff.1 hget
      obtain ⟨hfind, k, hk, -, hlt⟩ := hfx at_ x v rfl hv
      have hm := Closure.counts_of_extentOf hextent
      have hclearx := hclear x (by simp [Stmt.iteratesAll, Stmt.iterates, Expr.alone])
        (Table.contains_iff.2 (Table.mem_keys_iff.2 ⟨v, hv⟩))
      have hstays := Stmt.misplacedIn?_loop { c with inLoop := false } body hexit
      exact ⟨hclearx.1, ⟨v, hfind, hm, by rwa [hm.unique hk]⟩, _, rfl, hstays.symm.trans hpb⟩
    all_goals
      intro x hx
      simp [Stmt.iteratesAll, Stmt.iterates, Stmt.bindsDeepAll, Stmt.bindsDeep, hx]
  | @define span name ds ps body body' ss ss' _ _ ihb ih =>
    obtain ⟨hps, hpss⟩ := Option.or_eq_none_iff.1 hplaced
    refine ⟨ihb hps hfinds.1 (hclear.inside ?_ ?_ fun x hx => hx.imp id ?_),
      ih hpss hfinds.2 (hclear.part ?_ ?_)⟩
    case refine_3 =>
      rintro (hx | hx)
      · simp [Stmt.bindsDeepAll, Stmt.bindsDeep, hx]
      · simp [Stmt.bindsDeepAll, Stmt.bindsDeep, Stmt.bindsAll_subset_bindsDeepAll body x hx]
    all_goals
      intro x hx
      simp [Stmt.iteratesAll, Stmt.iterates, Stmt.bindsDeepAll, Stmt.bindsDeep, hx]
  | @class_ span name base body body' ss ss' _ _ ihb ih =>
    obtain ⟨hps, hpss⟩ := Option.or_eq_none_iff.1 hplaced
    refine ⟨ihb hps hfinds.1 (hclear.inside ?_ ?_ fun x hx => hx.imp id fun hx => ?_),
      ih hpss hfinds.2 (hclear.part ?_ ?_)⟩
    case refine_3 =>
      simp [Stmt.bindsDeepAll, Stmt.bindsDeep, Stmt.bindsAll_subset_bindsDeepAll body x hx]
    all_goals
      intro x hx
      simp [Stmt.iteratesAll, Stmt.iterates, Stmt.bindsDeepAll, Stmt.bindsDeep, hx]

/-! ## The theorem -/

/-- The stores differ at most in functions, and these at most in that loops over known names of
their bodies are unrolled. -/
structure Store.SameButUnrolled (known : Table Extent) (s t : Store) : Prop where
  eq : t = { s with functions := t.functions }
  size : t.functions.size = s.functions.size
  functions : ∀ r f g, s.getFunction? r = some f → t.getFunction? r = some g →
    g = f ∨ ∃ b, Unroll.stmts known f.definition.body = .ok b ∧ g = f.withBody b

theorem Related.sameButUnrolled {known : Table Extent} {base facts : Fact → Prop} {s t : Store}
    (hst : Related known base Hidden.nothing facts s t) : s.SameButUnrolled known t where
  eq := hst.eq
  size := hst.functions_size
  functions r f g hf hg := by
    obtain ⟨g', hg', hfg⟩ := hst.alike r id f hf
    rw [hg] at hg'
    cases hg'
    cases hfg with
    | same => exact Or.inl rfl
    | @unrolled b hb _ _ _ => exact Or.inr ⟨b, hb.stmts_eq, rfl⟩

/-- Unrolling preserves meaning.  Let the control statements of some code stand where they may, as
those of every program do, and let every loop over a name of the table find the value of the name,
which the code does not bind at any depth.  If the code can be unrolled, then from one and the same
store it ends as the unrolled code does: with the same flow or the same error at the same location,
and in stores that are the same but for the bodies of functions. -/
theorem unrolling_preserves_meaning {host : Host} (hhost : host.Parametric) (fuel : Nat)
    (m : Machine) (values : Table Value) {b b' : List Stmt} (f : Frame) (s : Store)
    (hlocals : f.locals.index < s.namespaces.size) (hglobals : f.globals.index < s.namespaces.size)
    {c : Surroundings} (hplaced : Stmt.misplacedIn? c b = none)
    (hfinds : Stmt.FindsAll values (Sight.ofFrame f s) b)
    (hclear : ∀ x ∈ Stmt.iteratesAll b, values.contains x = true → x ∉ Stmt.bindsDeepAll b)
    (hunroll : Unroll.stmts (values.map (Closure.extentOf s)) b = .ok b') :
    Outcome (Store.SameButUnrolled (values.map (Closure.extentOf s)))
    (fun flow flow' => flow = flow')
      (Run.execAll (callIn host fuel m) fuel f b s)
      (Run.execAll (callIn host fuel m) fuel f b' s) := by
  -- The names that loops run over are watched: what they are bound to stays as it is.
  let watched (x : String) : Prop := x ∈ Stmt.iteratesAll b ∧ values.contains x = true
  let base (φ : Fact) : Prop := (φ.place = f.locals ∨ φ.place = f.globals) ∧ watched φ.name ∧
    (s.bindings φ.place).get? φ.name = φ.value?
  have hb := Unrolls.of_stmts b hunroll (Stmt.FindsAll.nonempty b hfinds)
  have hresolved : Stmt.ResolvedAll (values.map (Closure.extentOf s)) (fun x => ¬ watched x)
      (Sight.ofFrame f s) b :=
    hb.resolvedAll hplaced hfinds fun x hx hv => ⟨fun hn => hn ⟨hx, hv⟩, hclear x hx hv⟩
  have hready : f.Ready (values.map (Closure.extentOf s)) base Hidden.nothing (fun _ => False)
      (fun x => ¬ watched x) (Sight.ofFrame f s) b := by
    refine ⟨⟨id, id, fun t _ e _ => e.2.avoids_nothing⟩, ⟨?_, ?_, ?_⟩, hresolved, ?_⟩
    · exact fun x hx => Or.inl ⟨Or.inl rfl, not_not.1 hx, rfl⟩
    · intro x _
      cases hc : f.captured? <;> simp [Sight.ofFrame, hc]
    · exact fun x v hx hv => ⟨Or.inr rfl, not_not.1 hx, hv⟩
    · rintro φ (⟨-, ⟨hx, hv⟩, -⟩ | hφ) _ hbinds
      · exact hclear _ hx hv (Stmt.bindsAll_subset_bindsDeepAll b _ hbinds)
      · exact hφ
  have hsame : Related (values.map (Closure.extentOf s)) base Hidden.nothing
      (fun _ => False) s s := by
    refine ⟨rfl, fun _ => rfl, fun r _ g hg => ⟨g, hg, .same g⟩, s.avoids_nothing,
      fun _ hr => hr.elim, fun _ hr => hr.elim, ?_⟩
    rintro φ (⟨hplace | hplace, -, hget⟩ | hφ)
    · exact ⟨by rwa [hplace], hget⟩
    · exact ⟨by rwa [hplace], hget⟩
    · exact hφ.elim
  have hrun :=
    hb.execAll_matches (fun facts => callIn_respects hhost fuel m facts) fuel (Or.inl rfl)
    hready s s hsame
  exact hrun.mono (fun _ _ hst => hst.sameButUnrolled) fun _ _ hflow => hflow.1

section Sample

/-- The pair `(10, 20)` under the name `xs`. -/
def samplePair : Table Value := .ofList [("xs", .tuple 0 [.int 10, .int 20])]

/-- A store in which the pair is a global. -/
def sampleStore : Store := { Store.empty with namespaces := #[samplePair], nextIdentity := 1 }

/-- The frame of a module in that store. -/
def sampleFrame : Frame := ⟨⟨0⟩, ⟨0⟩, none, ⟨"sample", ""⟩, 0⟩

/-- A loop over a name, with a body. -/
def sampleLoop (target name : String) (body : List Stmt) : Stmt :=
  .each ⟨0, 0⟩ (.name ⟨0, 0⟩ target) (.name ⟨0, 0⟩ name) body []

/-- A function that loops over the pair, and a loop over the pair that calls it. -/
def sampleCode : List Stmt :=
  [.define ⟨0, 0⟩ "f" [] []
    [sampleLoop "w" "xs" [.assign ⟨0, 0⟩ [.name ⟨0, 0⟩ "u"] (.name ⟨0, 0⟩ "w")]],
    sampleLoop "v" "xs" [.expr ⟨0, 0⟩ (.call ⟨0, 0⟩ (.name ⟨0, 0⟩ "f") [])]]

/-- The same with both loops unrolled. -/
def sampleRounds : List Stmt :=
  .define ⟨0, 0⟩ "f" [] [] (Unroll.rounds ⟨0, 0⟩ (.name ⟨0, 0⟩ "w") "xs" 2
      [.assign ⟨0, 0⟩ [.name ⟨0, 0⟩ "u"] (.name ⟨0, 0⟩ "w")]) ::
    Unroll.rounds ⟨0, 0⟩ (.name ⟨0, 0⟩ "v") "xs" 2 [.expr ⟨0, 0⟩
      (.call ⟨0, 0⟩ (.name ⟨0, 0⟩ "f") [])]

/-- The two are executed alike. -/
theorem sampleCode_unrolled :
    Unroll.stmts (samplePair.map (Closure.extentOf sampleStore)) sampleCode = .ok sampleRounds ∧
    Outcome (Store.SameButUnrolled (samplePair.map (Closure.extentOf sampleStore)))
      (fun flow flow' => flow = flow')
      (Run.execAll (callIn .probe 3 .captured) 3 sampleFrame sampleCode sampleStore)
      (Run.execAll (callIn .probe 3 .captured) 3 sampleFrame sampleRounds sampleStore) := by
  have hunroll : Unroll.stmts (samplePair.map (Closure.extentOf sampleStore)) sampleCode =
      .ok sampleRounds := rfl
  have hfinds : Stmt.FindsAll samplePair (Sight.ofFrame sampleFrame sampleStore) sampleCode := by
    refine ⟨⟨⟨?_, ⟨trivial, trivial⟩, trivial⟩, trivial⟩, ⟨?_, ⟨trivial, trivial⟩, trivial⟩,
      trivial⟩
    all_goals
      rintro at_ x v heq hv
      cases heq
      cases hv
      exact ⟨rfl, 2, rfl, by decide, by decide⟩
  exact ⟨hunroll, unrolling_preserves_meaning Host.parametric_probe 3 .captured
    samplePair sampleFrame sampleStore (by decide) (by decide) (c := .top) rfl hfinds
    (by decide) hunroll⟩

end Sample

end StagedScript
