import Mathlib.Data.List.Forall2
import StagedScript.Proofs.Unrolling.Sight

/-!
# Names of unrolled functions

Which names a function binds and which it reads from outside is read off its body.  Unrolling copies
the functions of a script, one in a loop as often as the loop has rounds, and rewrites the body of
each copy.  A loop that is written out round by round binds and reads what it did before, however
often it is written out; a void loop, which has no rounds, takes what it binds and reads with it.
So the names of a copy are those that the function has without its void loops.
-/

namespace StagedScript

/-- The function, if it is one. -/
def Scope.function? : Scope → Option Definition
  | function d => some d
  | class_ _ _ => none

namespace Stmt

/-- The functions that statements define, each in front of those within it. -/
def functions (b : List Stmt) : List Definition := (scopesAll b).filterMap Scope.function?

mutual

/-- The functions that a statement defines, each as often as there are rounds of the loops over
known names that it stands in. -/
def copies (known : Table Extent) : Stmt → List Definition
  | define _ x ds ps b => ⟨x, ds, ps, b⟩ :: copiesAll known b
  | class_ _ _ _ b => copiesAll known b
  | cond _ _ a b => copiesAll known a ++ copiesAll known b
  | loop _ _ b => copiesAll known b
  | each _ _ iter b e =>
    match Unroll.known? known iter with
    | some (_, .sized n) => (List.replicate n (copiesAll known b)).flatten
    | _ => copiesAll known b ++ copiesAll known e
  | expr _ _ | assign _ _ _ | pass _ | ret _ _ | brk _ | cont _ => []

/-- The functions that statements define, each as often as there are rounds around it. -/
def copiesAll (known : Table Extent) : List Stmt → List Definition
  | [] => []
  | s :: ss => copies known s ++ copiesAll known ss

end

theorem functions_cons (s : Stmt) (ss : List Stmt) :
    functions (s :: ss) = (scopes s).filterMap Scope.function? ++ functions ss :=
  List.filterMap_append

theorem functions_append (a b : List Stmt) : functions (a ++ b) = functions a ++ functions b := by
  induction a with
  | nil => rfl
  | cons s a ih => rw [List.cons_append, functions_cons, functions_cons, ih, List.append_assoc]

theorem copiesAll_append (known : Table Extent) (a b : List Stmt) :
    copiesAll known (a ++ b) = copiesAll known a ++ copiesAll known b := by
  induction a with
  | nil => rfl
  | cons s a ih => rw [List.cons_append, copiesAll, copiesAll, ih, List.append_assoc]

end Stmt

theorem Unroll.functions_rounds (span : Span) (target : Expr) (x : String) (n : Nat)
    (b : List Stmt) :
    Stmt.functions (Unroll.rounds span target x n b) =
      (List.replicate n (Stmt.functions b)).flatten := by
  rw [Unroll.rounds_eq]
  generalize 0 = i
  induction n generalizing i with
  | zero => rfl
  | succ n ih =>
    have htake : (Stmt.scopes (Unroll.take span target x i)).filterMap Scope.function? = [] := rfl
    rw [Unroll.roundsFrom, Stmt.functions_cons, htake, Stmt.functions_append, ih, List.nil_append,
      List.replicate_succ, List.flatten_cons]

/-- What is related stays so when it is repeated. -/
theorem forall₂_flatten_replicate {α β : Type} {R : α → β → Prop} {xs : List α} {ys : List β}
    (h : List.Forall₂ R xs ys) (n : Nat) :
    List.Forall₂ R (List.replicate n xs).flatten (List.replicate n ys).flatten := by
  induction n with
  | zero => exact .nil
  | succ n ih =>
    rw [List.replicate_succ, List.replicate_succ, List.flatten_cons, List.flatten_cons]
    exact List.rel_append h ih

namespace Definition

variable (known : Table Extent) (d d' : Definition)

/-- The function without the void loops in its body. -/
def withoutVoid : Definition := { d with body := Stmt.withoutVoidAll known d.body }

/-- The second function binds the same names as the first, and reads the same ones from outside. -/
structure KeepsNames : Prop where
  bound : ∀ x, x ∈ boundNames d'.body ↔ x ∈ boundNames d.body
  free : d'.freeNames = d.freeNames

/-- The second function is the first with its body unrolled. -/
structure Follows : Prop where
  header : d' = { d with body := d'.body }
  body : Unrolls known d.body d'.body

/-- The second function has the header of the first, and the names that the first has without its
void loops; so it has the very same names if there are no such loops. -/
structure Renders : Prop where
  header : d' = { d with body := d'.body }
  names : (d.withoutVoid known).KeepsNames d'
  exact : (∀ x ∈ Stmt.iteratesAll d.body, known.get? x ≠ some (.sized 0)) → d.KeepsNames d'

variable {known d d'}

theorem Follows.keepsNames (h : d.Follows known d') : d.KeepsNames d' where
  bound x := by rw [boundNames, boundNames, List.mem_eraseDups, List.mem_eraseDups,
    h.body.mem_bindsAll]
  free := by
    rw [h.header]
    exact h.body.freeNames d.name d.decorators d.params

theorem Follows.renders (h : (d.withoutVoid known).Follows known d') : d.Renders known d' where
  header := h.header
  names := h.keepsNames
  exact hpos := by
    have hself : d.withoutVoid known = d := by
      rw [withoutVoid, Stmt.withoutVoidAll_eq_self d.body hpos]
    rw [← hself]
    exact h.keepsNames

end Definition

namespace Stmt

variable {known : Table Extent}

mutual

theorem copies_withoutVoid (s : Stmt) : copiesAll known (s.withoutVoid known) =
    (s.copies known).map (Definition.withoutVoid known) := by
  cases s with
  | expr _ _ | assign _ _ _ | pass _ | ret _ _ | brk _ | cont _ => rfl
  | cond span test a b =>
    simp only [withoutVoid, copiesAll, copies, copiesAll_withoutVoid a, copiesAll_withoutVoid b,
      List.append_nil, List.map_append]
  | loop span test b | class_ span name base b =>
    simp only [withoutVoid, copiesAll, copies, copiesAll_withoutVoid b, List.append_nil]
  | define span name ds ps b =>
    simp only [withoutVoid, copiesAll, copies, copiesAll_withoutVoid b, List.append_nil,
      List.map_cons, Definition.withoutVoid]
  | each span target iter b e =>
    have hb := copiesAll_withoutVoid b
    have he := copiesAll_withoutVoid e
    unfold withoutVoid
    split
    · next hknown => simp [copies, copiesAll, hknown]
    · rw [copiesAll, copiesAll, List.append_nil, copies, copies]
      split
      · rw [hb, List.map_flatten, List.map_replicate]
      · rw [hb, he, List.map_append]

/-- Taking out void loops, in which no function is copied, takes them out of the copies. -/
theorem copiesAll_withoutVoid (b : List Stmt) : copiesAll known (withoutVoidAll known b) =
    (copiesAll known b).map (Definition.withoutVoid known) := by
  cases b with
  | nil => rfl
  | cons s ss =>
    rw [withoutVoidAll, copiesAll_append, copies_withoutVoid s, copiesAll_withoutVoid ss, copiesAll,
      List.map_append]

end

end Stmt

/-- The functions of unrolled statements are copies of those of the statements, with their bodies
unrolled. -/
theorem Unrolls.functions {known : Table Extent} {b b' : List Stmt} (hb : Unrolls known b b') :
    List.Forall₂ (Definition.Follows known) (Stmt.copiesAll known b) (Stmt.functions b') := by
  induction hb with
  | nil => exact .nil
  | @plain s ss ss' hs _ ih =>
    cases s with
    | expr _ _ | assign _ _ _ | pass _ | ret _ _ | brk _ | cont _ => exact ih
    | cond _ _ _ _ | loop _ _ _ | each _ _ _ _ _ | define _ _ _ _ _ | class_ _ _ _ _ => cases hs
  | cond _ _ _ iha ihb ih =>
    rw [Stmt.functions_cons, Stmt.scopes, List.filterMap_append]
    exact List.rel_append (List.rel_append iha ihb) ih
  | loop _ _ ihb ih =>
    rw [Stmt.functions_cons]
    exact List.rel_append ihb ih
  | each hiter _ _ _ ihb ihe ih =>
    rw [Stmt.functions_cons, Stmt.scopes, List.filterMap_append, Stmt.copiesAll, Stmt.copies, hiter]
    exact List.rel_append (List.rel_append ihb ihe) ih
  | @rounds span at_ target x n b b' ss ss' hx _ _ _ _ ihb ih =>
    have hknown : Unroll.known? known (.name at_ x) = some (x, .sized n) := by
      simp [Unroll.known?, hx]
    rw [Stmt.functions_append, Unroll.functions_rounds, Stmt.copiesAll, Stmt.copies, hknown]
    exact List.rel_append (forall₂_flatten_replicate ihb n) ih
  | define hb _ ihb ih =>
    rw [Stmt.functions_cons]
    exact List.rel_append (.cons ⟨rfl, hb⟩ ihb) ih
  | class_ _ _ ihb ih =>
    rw [Stmt.functions_cons]
    exact List.rel_append ihb ih

/-- The functions of a script that is unrolled are copies of those of the script, in order: one in
a loop over a known name is copied once for every round.  A copy binds the same names, and reads the
same ones from outside, as the function without its void loops, and so as the function itself if it
has none. -/
theorem Script.unroll_keeps_names {known : Table Extent} {script script' : Script}
    (h : Script.unroll known script = .ok () script') :
    List.Forall₂ (Definition.Renders known) (Stmt.copiesAll known script.body)
      (Stmt.functions script'.body) := by
  obtain ⟨b, hb, rfl⟩ := Script.unroll_eq_ok.1 h
  have hfollows := (Unrolls.of_stmts_withoutVoid script.body hb).functions
  rw [Stmt.copiesAll_withoutVoid, List.forall₂_map_left_iff] at hfollows
  exact hfollows.imp fun _ _ hd => hd.renders

/-- A function that ends by returning a name:

    def f():
        ...
        return v
-/
def sampleReturning (body : List Stmt) : Script where
  body := [.define ⟨0, 0⟩ "f" [] [] (body ++ [.ret ⟨0, 0⟩ (some (.name ⟨0, 0⟩ "v"))])]
  source := ⟨"sample", ""⟩
  lineOffset := 0

/-- The name of a function, the names that it binds and those that it reads from outside. -/
def sampleNames (d : Definition) : String × List String × List String :=
  (d.name, boundNames d.body, d.freeNames)

/-- A function in a loop of two rounds is copied twice, and each copy has the names of the function;
the function around loses no more than the target of a void loop. -/
theorem sampleReturning_names_kept :
    let known : Table Extent := .ofList [("xs", .sized 2), ("ys", .sized 0)]
    let inner := Stmt.define ⟨0, 0⟩ "g" [] [] [.ret ⟨0, 0⟩ (some (.name ⟨0, 0⟩ "v"))]
    let void := Stmt.each ⟨0, 0⟩ (.name ⟨0, 0⟩ "u") (.name ⟨0, 0⟩ "ys") [.pass ⟨0, 0⟩] []
    let outer := Stmt.each ⟨0, 0⟩ (.name ⟨0, 0⟩ "v") (.name ⟨0, 0⟩ "xs") [inner] []
    let script := sampleReturning [void, outer]
    let script' := sampleReturning (Unroll.rounds ⟨0, 0⟩ (.name ⟨0, 0⟩ "v") "xs" 2 [inner])
    Script.unroll known script = .ok () script' ∧
    List.Forall₂ (Definition.Renders known) (Stmt.copiesAll known script.body)
      (Stmt.functions script'.body) ∧
    (Stmt.copiesAll known script.body).map sampleNames =
      [("f", ["u", "v", "g"], ["ys", "xs"]), ("g", [], ["v"]), ("g", [], ["v"])] ∧
    (Stmt.functions script'.body).map sampleNames =
      [("f", ["v", "g"], ["xs"]), ("g", [], ["v"]), ("g", [], ["v"])] := by
  intro known inner void outer script script'
  have hunroll : Script.unroll known script = .ok () script' := rfl
  exact ⟨hunroll, Script.unroll_keeps_names hunroll, by decide +kernel, by decide +kernel⟩

/-- A name that only a void loop binds is no longer bound: before, `f` binds `v`, and after, it
reads `v` from outside, though nothing is known about `v`. -/
theorem sampleReturning_unbinds :
    let known : Table Extent := .ofList [("xs", .sized 0)]
    let void := Stmt.each ⟨0, 0⟩ (.name ⟨0, 0⟩ "v") (.name ⟨0, 0⟩ "xs") [.pass ⟨0, 0⟩] []
    Script.unroll known (sampleReturning [void]) = .ok () (sampleReturning []) ∧
    (Stmt.functions (sampleReturning [void]).body).map sampleNames = [("f", ["v"], ["xs"])] ∧
    (Stmt.functions (sampleReturning []).body).map sampleNames = [("f", [], ["v"])] ∧
    known.get? "v" = none :=
  ⟨rfl, by decide +kernel, by decide +kernel, by decide +kernel⟩

end StagedScript
