import Mathlib.Data.List.Basic
import StagedScript.Proofs.Unrolling.Rewriting

/-!
# What unrolling leaves

When unrolling succeeds, every loop over a known name, however deep it stands, has been replaced by
its rounds, and nothing else has been touched: the result is the script with each statement written
out by itself, `Stmt.expand`.  No loop over a known name is left, so that unrolling again does
nothing.
-/

namespace StagedScript

namespace Stmt

/-! ## The blocks of a statement -/

/-- The name that a statement runs over, if it is a loop over a name. -/
def iterated : Stmt → List String
  | each _ _ iter _ _ => iter.alone
  | _ => []

/-- The blocks of a statement. -/
def blocks : Stmt → List (List Stmt)
  | cond _ _ a b | each _ _ _ a b => [a, b]
  | loop _ _ b | define _ _ _ _ b | class_ _ _ _ b => [b]
  | expr _ _ | assign _ _ _ | pass _ | ret _ _ | brk _ | cont _ => []

/-- The statement with its blocks replaced. -/
def mapBlocks (f : List Stmt → List Stmt) : Stmt → Stmt
  | cond span test a b => cond span test (f a) (f b)
  | each span target iter a b => each span target iter (f a) (f b)
  | loop span test b => loop span test (f b)
  | define span name decorators params b => define span name decorators params (f b)
  | class_ span name base b => class_ span name base (f b)
  | s => s

theorem mapBlocks_congr {f g : List Stmt → List Stmt} {s : Stmt} (h : ∀ b ∈ s.blocks, f b = g b) :
    s.mapBlocks f = s.mapBlocks g := by
  cases s <;> simp_all [blocks, mapBlocks]

theorem mapBlocks_id (s : Stmt) : s.mapBlocks id = s := by
  cases s <;> rfl

theorem iterated_mapBlocks (f : List Stmt → List Stmt) (s : Stmt) :
    (s.mapBlocks f).iterated = s.iterated := by
  cases s <;> rfl

theorem blocks_mapBlocks (f : List Stmt → List Stmt) (s : Stmt) :
    (s.mapBlocks f).blocks = s.blocks.map f := by
  cases s <;> rfl

/-- What follows for a block from the blocks of its statements holds of all blocks. -/
theorem blocks_induction {motive : List Stmt → Prop}
    (h : ∀ b, (∀ s ∈ b, ∀ c ∈ s.blocks, motive c) → motive b) (b : List Stmt) : motive b := by
  refine h b ?_
  intro s hs c hc
  have hsize : sizeOf c < sizeOf b := by
    have hlt := List.sizeOf_lt_of_mem hs
    cases s <;> simp only [blocks, List.mem_cons, List.not_mem_nil, or_false] at hc
    case cond | each => rcases hc with rfl | rfl <;> simp at hlt <;> omega
    case loop | define | class_ => subst hc; simp at hlt; omega
  exact blocks_induction h c
termination_by sizeOf b

theorem mem_iterates {s : Stmt} {x : String} :
    x ∈ s.iterates ↔ x ∈ s.iterated ∨ ∃ b ∈ s.blocks, x ∈ iteratesAll b := by
  cases s <;> simp [iterates, iterated, blocks]

theorem mem_iteratesAll {b : List Stmt} {x : String} :
    x ∈ iteratesAll b ↔ ∃ s ∈ b, x ∈ s.iterates := by
  induction b with
  | nil => simp [iteratesAll]
  | cons s b ih => simp [iteratesAll, ih]

end Stmt

/-! ## Writing out loops -/

theorem Unroll.known?_eq_none {known : Table Extent} {iter : Expr}
    (hiter : ∀ x ∈ iter.alone, known.get? x = none) : known? known iter = none := by
  cases iter with
  | name at_ x => simp [known?, hiter x (by simp [Expr.alone])]
  | _ => rfl

/-- Statements are written out one by one: a loop over a known name becomes its rounds, each of
which takes an item and goes on with the body, and any other statement stays, with its blocks
written out. -/
structure WritesOut (known : Table Extent) (f : Stmt → List Stmt) : Prop where
  /-- The statements that are made stand where the loop stands. -/
  rounds {span at_ : Span} {target : Expr} {x : String} {n : Nat} {body : List Stmt} :
    known.get? x = some (.sized n) → f (.each span target (.name at_ x) body []) =
      (List.range n).flatMap fun i =>
        .assign span [target] (.subscript span (.name span x) (.int span (Int64.ofNat i))) ::
          body.flatMap f
  kept {s : Stmt} : (∀ x ∈ s.iterated, known.get? x = none) → f s = [s.mapBlocks (List.flatMap f)]

namespace Stmt

mutual

/-- The statement with its loops over known names written out. -/
def expand (known : Table Extent) : Stmt → List Stmt
  | each span target iter body elseBody =>
    match Unroll.known? known iter with
    | some (x, .sized n) => Unroll.rounds span target x n (expandAll known body)
    | _ => [each span target iter (expandAll known body) (expandAll known elseBody)]
  | cond span test a b => [cond span test (expandAll known a) (expandAll known b)]
  | loop span test b => [loop span test (expandAll known b)]
  | define span name decorators params b => [define span name decorators params (expandAll known b)]
  | class_ span name base b => [class_ span name base (expandAll known b)]
  | s => [s]

/-- The statements with their loops over known names written out. -/
def expandAll (known : Table Extent) : List Stmt → List Stmt
  | [] => []
  | s :: ss => expand known s ++ expandAll known ss

end

theorem expandAll_eq (known : Table Extent) : expandAll known = List.flatMap (expand known) := by
  funext b
  induction b with
  | nil => rfl
  | cons s b ih => rw [expandAll, ih, List.flatMap_cons]

theorem writesOut_expand (known : Table Extent) : WritesOut known (expand known) where
  rounds hx := by
    simp only [expand, Unroll.known?, hx, Option.map_some, expandAll_eq]
    rfl
  kept {s} hs := by
    cases s with
    | each span target iter a b =>
      simp only [expand, Unroll.known?_eq_none hs, mapBlocks, expandAll_eq]
    | _ => simp only [expand, mapBlocks, expandAll_eq]

end Stmt

/-! ## What unrolling does to a statement -/

namespace Unroll

variable {known : Table Extent}

theorem one_block_eq_ok {make : List Stmt → Stmt} {a out : List Stmt} :
    (do return [make (← stmts known a)]) = Except.ok (ε := Span × UnrollError.Cause) out ↔
      ∃ f : List Stmt → List Stmt, (∀ b ∈ [a], stmts known b = .ok (f b)) ∧ out = [make (f a)] := by
  constructor
  · intro hout
    obtain ⟨a', ha, hout⟩ := Except.bind_eq_ok.1 hout
    cases hout
    exact ⟨fun _ => a', by simp [ha], rfl⟩
  · rintro ⟨f, hf, rfl⟩
    rw [hf a (by simp)]
    rfl

theorem two_blocks_eq_ok {make : List Stmt → List Stmt → Stmt} {a b out : List Stmt} :
    (do let a ← stmts known a; return [make a (← stmts known b)]) =
        Except.ok (ε := Span × UnrollError.Cause) out ↔
      ∃ f : List Stmt → List Stmt, (∀ c ∈ [a, b], stmts known c = .ok (f c)) ∧
        out = [make (f a) (f b)] := by
  constructor
  · intro hout
    obtain ⟨a', ha, hout⟩ := Except.bind_eq_ok.1 hout
    obtain ⟨b', hb, hout⟩ := Except.bind_eq_ok.1 hout
    cases hout
    refine ⟨fun c => (stmts known c).toOption.getD [], ?_, ?_⟩ <;> simp [ha, hb, Except.toOption]
  · rintro ⟨f, hf, rfl⟩
    rw [hf a (by simp), hf b (by simp)]
    rfl

/-- A block is unrolled statement by statement. -/
theorem stmts_eq_ok_iff {b b' : List Stmt} : stmts known b = .ok b' ↔
    ∃ f : Stmt → List Stmt, (∀ s ∈ b, stmt known s = .ok (f s)) ∧ b' = b.flatMap f := by
  constructor
  · intro hb
    refine ⟨fun s => (stmt known s).toOption.getD [], ?_⟩
    induction b generalizing b' with
    | nil =>
      cases hb
      exact ⟨by simp, rfl⟩
    | cons s b ih =>
      obtain ⟨front, hfront, hb⟩ := Except.bind_eq_ok.1 hb
      obtain ⟨rest, hrest, hb⟩ := Except.bind_eq_ok.1 hb
      cases hb
      obtain ⟨hall, rfl⟩ := ih hrest
      simpa [hfront, Except.toOption] using hall
  · rintro ⟨f, hf, rfl⟩
    induction b with
    | nil => rfl
    | cons s b ih =>
      rw [stmts, hf s (by simp), ih fun t ht => hf t (by simp [ht])]
      rfl

/-- A statement that runs over no known name keeps all but its blocks, which are unrolled. -/
theorem stmt_eq_ok_iff {s : Stmt} {out : List Stmt} (hs : ∀ x ∈ s.iterated, known.get? x = none) :
    stmt known s = .ok out ↔
      ∃ f : List Stmt → List Stmt, (∀ b ∈ s.blocks, stmts known b = .ok (f b)) ∧
        out = [s.mapBlocks f] := by
  cases s with
  | expr _ _ | assign _ _ _ | pass _ | ret _ _ | brk _ | cont _ =>
    simp [stmt, Stmt.blocks, Stmt.mapBlocks, pure, Except.pure, eq_comm]
  | cond span test a b => exact two_blocks_eq_ok
  | loop span test b => exact one_block_eq_ok
  | define span name decorators params b => exact one_block_eq_ok
  | class_ span name base b => exact one_block_eq_ok
  | each span target iter a b =>
    rw [stmt, known?_eq_none hs]
    exact two_blocks_eq_ok

/-- A loop over a known name becomes its rounds. -/
theorem each_eq_ok {span at_ : Span} {target : Expr} {x : String} {extent : Extent}
    {body els out : List Stmt} (hx : known.get? x = some extent)
    (hout : stmt known (.each span target (.name at_ x) body els) = .ok out) :
    els = [] ∧ ∃ n, extent = .sized n ∧ (n = 0 ∧ out = [] ∨
      ∃ body', stmts known body = .ok body' ∧ out = rounds span target x n body') := by
  have hknown : known? known (.name at_ x) = some (x, extent) := by simp [known?, hx]
  rw [stmt, hknown] at hout
  obtain ⟨n, hn, hout⟩ := Except.bind_eq_ok.1 hout
  obtain ⟨hels, hextent, -⟩ := Unrolls.count_eq_ok hn
  refine ⟨hels, n, hextent, ?_⟩
  by_cases hn0 : n = 0
  · rw [if_pos hn0] at hout
    cases hout
    exact .inl ⟨hn0, rfl⟩
  · rw [if_neg hn0] at hout
    obtain ⟨body', hbody, hout⟩ := Except.bind_eq_ok.1 hout
    cases hout
    exact .inr ⟨body', hbody, rfl⟩

/-- What unrolling does to a statement: it replaces a loop over a known name by its rounds, and
keeps all but the blocks of any other. -/
theorem stmt_cases {s : Stmt} {out : List Stmt} (hout : stmt known s = .ok out) :
    (∃ span target at_ x n body, s = .each span target (.name at_ x) body [] ∧
      known.get? x = some (.sized n) ∧ (n = 0 ∧ out = [] ∨
        ∃ body', stmts known body = .ok body' ∧ out = rounds span target x n body')) ∨
    ((∀ x ∈ s.iterated, known.get? x = none) ∧ ∃ f : List Stmt → List Stmt,
      (∀ b ∈ s.blocks, stmts known b = .ok (f b)) ∧ out = [s.mapBlocks f]) := by
  by_cases hs : ∀ x ∈ s.iterated, known.get? x = none
  · exact .inr ⟨hs, (stmt_eq_ok_iff hs).1 hout⟩
  · simp only [not_forall] at hs
    obtain ⟨x, hiterated, hx⟩ := hs
    obtain ⟨extent, hx⟩ := Option.ne_none_iff_exists'.1 hx
    cases s with
    | each span target iter body els =>
      obtain ⟨at_, rfl⟩ := Expr.mem_alone.1 hiterated
      obtain ⟨rfl, n, rfl, hout⟩ := each_eq_ok hx hout
      exact .inl ⟨span, target, at_, x, n, body, rfl, hx, hout⟩
    | _ => cases hiterated

theorem mem_iteratesAll_rounds {span : Span} {target : Expr} {x y : String} {n : Nat}
    {body : List Stmt} (hy : y ∈ Stmt.iteratesAll (rounds span target x n body)) :
    y ∈ Stmt.iteratesAll body := by
  obtain ⟨s, hs, hy⟩ := Stmt.mem_iteratesAll.1 hy
  obtain ⟨i, -, hs⟩ := List.mem_flatMap.1 hs
  rcases List.mem_cons.1 hs with rfl | hs
  · cases hy
  · exact Stmt.mem_iteratesAll.2 ⟨s, hs, hy⟩

/-- What is unrolled is written out. -/
theorem stmts_eq_flatMap (b : List Stmt) {b' : List Stmt} (hb : stmts known b = .ok b') :
    b' = b.flatMap (Stmt.expand known) := by
  have hwrites := Stmt.writesOut_expand known
  induction b using Stmt.blocks_induction generalizing b' with
  | h b ih =>
  obtain ⟨f, hf, rfl⟩ := stmts_eq_ok_iff.1 hb
  refine List.flatMap_congr ?_
  intro s hs
  rcases stmt_cases (hf s hs) with
    ⟨span, target, at_, x, n, body, rfl, hx, hrounds⟩ | ⟨hiterated, g, hg, hout⟩
  · rw [hwrites.rounds hx]
    rcases hrounds with ⟨rfl, hout⟩ | ⟨body', hbody, hout⟩
    · rw [hout]
      rfl
    · rw [hout, ih _ hs body (by simp [Stmt.blocks]) hbody]
      rfl
  · rw [hout, hwrites.kept hiterated, Stmt.mapBlocks_congr fun c hc => ih s hs c hc (hg c hc)]

/-- No loop over a known name is left. -/
theorem stmts_clears (b : List Stmt) {b' : List Stmt} (hb : stmts known b = .ok b') :
    ∀ x ∈ Stmt.iteratesAll b', known.get? x = none := by
  induction b using Stmt.blocks_induction generalizing b' with
  | h b ih =>
  obtain ⟨f, hf, rfl⟩ := stmts_eq_ok_iff.1 hb
  intro x hx
  obtain ⟨t, ht, hx⟩ := Stmt.mem_iteratesAll.1 hx
  obtain ⟨s, hs, ht⟩ := List.mem_flatMap.1 ht
  rcases stmt_cases (hf s hs) with
    ⟨span, target, at_, y, n, body, rfl, hy, hrounds⟩ | ⟨hiterated, g, hg, hout⟩
  · rcases hrounds with ⟨-, hout⟩ | ⟨body', hbody, hout⟩
    · rw [hout] at ht
      cases ht
    · rw [hout] at ht
      exact ih _ hs body (by simp [Stmt.blocks]) hbody x
        (mem_iteratesAll_rounds (Stmt.mem_iteratesAll.2 ⟨t, ht, hx⟩))
  · rw [hout] at ht
    obtain rfl := List.mem_singleton.1 ht
    rcases Stmt.mem_iterates.1 hx with hx | ⟨c', hc', hx⟩
    · exact hiterated x (by rwa [Stmt.iterated_mapBlocks] at hx)
    · rw [Stmt.blocks_mapBlocks] at hc'
      obtain ⟨c, hc, rfl⟩ := List.mem_map.1 hc'
      exact ih s hs c hc (hg c hc) x hx

/-- Statements without loops over known names are left as they are. -/
theorem stmts_eq_self (b : List Stmt) (hb : ∀ x ∈ Stmt.iteratesAll b, known.get? x = none) :
    stmts known b = .ok b := by
  induction b using Stmt.blocks_induction with
  | h b ih =>
  refine stmts_eq_ok_iff.2 ⟨fun s => [s], ?_, by simp⟩
  intro s hs
  have hiterates : ∀ x ∈ s.iterates, known.get? x = none := by
    intro x hx
    exact hb x (Stmt.mem_iteratesAll.2 ⟨s, hs, hx⟩)
  have hiterated : ∀ x ∈ s.iterated, known.get? x = none := by
    intro x hx
    exact hiterates x (Stmt.mem_iterates.2 (.inl hx))
  refine (stmt_eq_ok_iff hiterated).2 ⟨id, ?_, by rw [Stmt.mapBlocks_id]⟩
  intro c hc
  exact ih s hs c hc fun x hx => hiterates x (Stmt.mem_iterates.2 (.inr ⟨c, hc, hx⟩))

end Unroll

/-- A script that is unrolled has no loop over a known name left, wherever it stands, and is not
changed when it is unrolled again; and it is the script that was given, with every loop over a known
name written out in its place and everything else as it was. -/
theorem Script.unroll_exact {known : Table Extent} {script script' : Script}
    (h : Script.unroll known script = .ok () script') :
    (∀ x ∈ Stmt.iteratesAll script'.body, known.get? x = none) ∧
    Script.unroll known script' = .ok () script' ∧
    WritesOut known (Stmt.expand known) ∧
    script' = { script with body := script.body.flatMap (Stmt.expand known) } := by
  obtain ⟨b, hb, rfl⟩ := Script.unroll_eq_ok.1 h
  have hclear := Unroll.stmts_clears _ hb
  have hagain := Unroll.stmts_eq_self _ hclear
  refine ⟨hclear, Script.unroll_eq_ok.2 ⟨b, hagain, rfl⟩, Stmt.writesOut_expand known, ?_⟩
  rw [Unroll.stmts_eq_flatMap _ hb]

/-- A loop that is kept, with statements in its `else` clause:

    for w in ys:
        break
    else:
        ...
-/
def sampleKept (els : List Stmt) : Script where
  body := [.each ⟨0, 90⟩ (.name ⟨4, 5⟩ "w") (.name ⟨9, 11⟩ "ys") [.brk ⟨17, 22⟩] els]
  source := ⟨"sample", ""⟩
  lineOffset := 0

/-- Loops over known names inside each other, in the `else` clause of a loop that is kept, are both
written out, the inner one in every round of the outer one. -/
theorem sampleKept_unrolled :
    let known : Table Extent := .ofList [("xs", .sized 2), ("zs", .sized 1)]
    let inner := Stmt.each ⟨60, 90⟩ (.name ⟨64, 65⟩ "u") (.name ⟨69, 71⟩ "zs") [.pass ⟨86, 90⟩] []
    let outer := Stmt.each ⟨35, 90⟩ (.name ⟨39, 40⟩ "v") (.name ⟨44, 46⟩ "xs") [inner] []
    let script' := sampleKept (Unroll.rounds ⟨35, 90⟩ (.name ⟨39, 40⟩ "v") "xs" 2
      (Unroll.rounds ⟨60, 90⟩ (.name ⟨64, 65⟩ "u") "zs" 1 [.pass ⟨86, 90⟩]))
    Script.unroll known (sampleKept [outer]) = .ok () script' ∧
    (∀ x ∈ Stmt.iteratesAll script'.body, known.get? x = none) ∧
    Script.unroll known script' = .ok () script' ∧
    WritesOut known (Stmt.expand known) ∧
    script' = { sampleKept [outer] with
      body := (sampleKept [outer]).body.flatMap (Stmt.expand known) } := by
  intro known inner outer script'
  have hunroll : Script.unroll known (sampleKept [outer]) = .ok () script' := rfl
  exact ⟨hunroll, Script.unroll_exact hunroll⟩

end StagedScript
