import StagedScript.Proofs.Alike.Evaluation
import StagedScript.Proofs.Alike.Flow
import StagedScript.Proofs.Unrolling.Rewriting
import StagedScript.Specialize.Closure

/-!
# What names are in sight

Whether the items of a loop are those that were counted beforehand depends on what its name stands
for where the loop stands.  A name is looked up among the bindings here, among those captured around
and among those beyond; what of it a nested class or function sees is known from the code alone, as
long as the name is not bound on the way.
-/

/-!
## Names of unrolled statements

An unrolled loop reads and binds its names once for every round.  So the names that a body binds
are the same before and after unrolling, and so are those that a function reads from outside, in the
order of their first use.
-/

namespace StagedScript

/-- The names are the same, and are met first in the same order. -/
def SameNames (xs ys : List String) : Prop := xs.eraseDups = ys.eraseDups

namespace SameNames

variable {xs xs' ys ys' : List String}

theorem mem_iff (h : SameNames xs xs') (x : String) : x ∈ xs ↔ x ∈ xs' := by
  rw [← List.mem_eraseDups, h, List.mem_eraseDups]

theorem eraseDups_filter (p : String → Bool) (xs : List String) :
    (xs.filter p).eraseDups = xs.eraseDups.filter p := by
  induction hn : xs.length using Nat.strongRecOn generalizing xs with
  | ind n ih =>
    cases xs with
    | nil => rfl
    | cons x xs =>
      have hlen : (xs.filter (! · == x)).length < n := by
        have hle := List.length_filter_le (! · == x) xs
        rw [List.length_cons] at hn
        omega
      rw [List.eraseDups_cons]
      by_cases hp : p x = true
      · rw [List.filter_cons_of_pos hp, List.eraseDups_cons, List.filter_cons_of_pos hp,
          ← ih _ hlen _ rfl, List.filter_filter, List.filter_filter]
        simp only [Bool.and_comm]
      · -- The occurrences of `x` that are erased are not kept by the filter anyhow.
        have hxs : xs.filter p = (xs.filter (! · == x)).filter p := by
          rw [List.filter_filter]
          refine List.filter_congr fun y _ => ?_
          by_cases hy : y = x
          · simp [hy, hp]
          · simp [hy]
        rw [List.filter_cons_of_neg hp, List.filter_cons_of_neg hp, ← ih _ hlen _ rfl, hxs]

theorem filter (h : SameNames xs xs') (p : String → Bool) :
    SameNames (xs.filter p) (xs'.filter p) := by
  unfold SameNames at *
  rw [eraseDups_filter, eraseDups_filter, h]

theorem append (hx : SameNames xs xs') (hy : SameNames ys ys') :
    SameNames (xs ++ ys) (xs' ++ ys') := by
  have hremove : ys'.removeAll xs = ys'.removeAll xs' := by
    refine List.filter_congr fun y _ => ?_
    have hmem := hx.mem_iff y
    by_cases h : y ∈ xs <;> simp_all
  have hys : SameNames (ys.removeAll xs) (ys'.removeAll xs) := hy.filter _
  unfold SameNames at *
  rw [List.eraseDups_append, List.eraseDups_append, hx, hys, hremove]

/-- Names that are met again add nothing. -/
theorem again (xs ys : List String) : SameNames (xs ++ (xs ++ ys)) (xs ++ ys) := by
  have hremove : (xs ++ ys).removeAll xs = ys.removeAll xs := by
    simp [List.removeAll, List.filter_append]
  unfold SameNames
  rw [List.eraseDups_append, hremove, List.eraseDups_append]

end SameNames

theorem without_congr {bound bound' : List String} (h : ∀ x, x ∈ bound ↔ x ∈ bound')
    (names : List String) : without bound names = without bound' names := by
  refine List.filter_congr fun x _ => ?_
  have hx := h x
  by_cases hb : x ∈ bound <;> simp_all

namespace Stmt

theorem bindsAll_append (b b' : List Stmt) : bindsAll (b ++ b') = bindsAll b ++ bindsAll b' := by
  induction b with
  | nil => rfl
  | cons s ss ih => rw [List.cons_append, bindsAll, bindsAll, ih, List.append_assoc]

theorem readsAll_append (b b' : List Stmt) : readsAll (b ++ b') = readsAll b ++ readsAll b' := by
  induction b with
  | nil => rfl
  | cons s ss ih => rw [List.cons_append, readsAll, readsAll, ih, List.append_assoc]

end Stmt

section Rounds

variable (span : Span) (target : Expr) (x : String) (b : List Stmt) {n : Nat}

theorem Unroll.mem_bindsAll_rounds (hn : 0 < n) (y : String) :
    y ∈ Stmt.bindsAll (Unroll.rounds span target x n b) ↔ y ∈ target.stores ++ Stmt.bindsAll b := by
  rw [Unroll.rounds_eq]
  generalize 0 = i
  induction n generalizing i with
  | zero => omega
  | succ n ih =>
    have htake : Stmt.binds (Unroll.take span target x i) = target.stores := by
      simp [Unroll.take, Stmt.binds, Expr.storesAll]
    rw [Unroll.roundsFrom, Stmt.bindsAll, Stmt.bindsAll_append, htake]
    rcases Nat.eq_zero_or_pos n with rfl | hn'
    · simp [Unroll.roundsFrom, Stmt.bindsAll]
    · rw [← List.append_assoc, List.mem_append, ih hn' (i + 1)]
      exact or_self_iff

/-- The rounds of a loop read the name that it runs over, then what the target and the body read. -/
theorem Unroll.readsAll_rounds (hn : 0 < n) :
    SameNames (Stmt.readsAll (Unroll.rounds span target x n b))
      (x :: (target.storeReads ++ Stmt.readsAll b)) := by
  rw [Unroll.rounds_eq]
  generalize 0 = i
  induction n generalizing i with
  | zero => omega
  | succ n ih =>
    have htake : Stmt.reads (Unroll.take span target x i) = x :: target.storeReads := by
      simp [Unroll.take, Stmt.reads, Expr.reads, Expr.storeReadsAll]
    rw [Unroll.roundsFrom, Stmt.readsAll, Stmt.readsAll_append, htake]
    rcases Nat.eq_zero_or_pos n with rfl | hn'
    · simp [Unroll.roundsFrom, Stmt.readsAll, SameNames]
    · have hagain := SameNames.again (x :: (target.storeReads ++ Stmt.readsAll b)) []
      rw [List.append_nil] at hagain
      have hround : x :: target.storeReads ++ (Stmt.readsAll b ++
          Stmt.readsAll (Unroll.roundsFrom span target x b (i + 1) n)) =
          x :: (target.storeReads ++ Stmt.readsAll b) ++
          Stmt.readsAll (Unroll.roundsFrom span target x b (i + 1) n) := by
        simp
      rw [hround]
      exact (SameNames.append rfl (ih hn' (i + 1))).trans hagain

end Rounds

namespace Unrolls

variable {known : Table Extent} {b b' : List Stmt}

/-- Unrolled statements bind the same names. -/
theorem mem_bindsAll (hb : Unrolls known b b') (y : String) :
    y ∈ Stmt.bindsAll b' ↔ y ∈ Stmt.bindsAll b := by
  induction hb with
  | nil => rfl
  | plain _ _ ih => simp only [Stmt.bindsAll, List.mem_append, ih]
  | cond _ _ _ iha ihb ih => simp only [Stmt.bindsAll, Stmt.binds, List.mem_append, iha, ihb, ih]
  | loop _ _ ihb ih => simp only [Stmt.bindsAll, Stmt.binds, List.mem_append, ihb, ih]
  | each _ _ _ _ ihb ihe ih =>
    simp only [Stmt.bindsAll, Stmt.binds, List.mem_append, ihb, ihe, ih]
  | rounds _ hn _ _ _ ihb ih =>
    rw [Stmt.bindsAll_append, List.mem_append, Unroll.mem_bindsAll_rounds _ _ _ _ hn, ih]
    simp [Stmt.bindsAll, Stmt.binds, ihb, or_assoc]
  | define _ _ _ ih => simp only [Stmt.bindsAll, Stmt.binds, List.mem_append, ih]
  | class_ _ _ _ ih => simp only [Stmt.bindsAll, Stmt.binds, List.mem_append, ih]

/-- Unrolled statements read the same names, and first in the same order. -/
theorem readsAll (hb : Unrolls known b b') :
    SameNames (Stmt.readsAll b') (Stmt.readsAll b) := by
  induction hb with
  | nil => rfl
  | plain _ _ ih => exact .append rfl ih
  | cond _ _ _ iha ihb ih => exact .append (.append (.append rfl iha) ihb) ih
  | loop _ _ ihb ih => exact .append (.append rfl ihb) ih
  | each _ _ _ _ ihb ihe ih => exact .append (.append (.append rfl ihb) ihe) ih
  | @rounds span at_ target x n b b' ss ss' _ hn _ _ _ ihb ih =>
    rw [Stmt.readsAll_append]
    refine .append ((Unroll.readsAll_rounds span target x b' hn).trans ?_) ih
    have hloop : Stmt.reads (.each span target (.name at_ x) b []) =
        [x] ++ target.storeReads ++ Stmt.readsAll b ++ [] := rfl
    rw [hloop, List.append_nil]
    have hhead : SameNames ([x] ++ target.storeReads) ([x] ++ target.storeReads) := rfl
    exact hhead.append ihb
  | @define span name ds ps b b' ss ss' hb _ ihb ih =>
    refine .append (.append rfl ?_) ih
    have hbound : ∀ y, y ∈ Param.names ps ++ Stmt.bindsAll b' ↔
        y ∈ Param.names ps ++ Stmt.bindsAll b := by
      intro y
      rw [List.mem_append, List.mem_append, hb.mem_bindsAll]
    rw [without_congr hbound]
    exact ihb.filter _
  | @class_ span name base b b' ss ss' hb _ ihb ih =>
    refine .append (.append rfl ?_) ih
    rw [without_congr hb.mem_bindsAll]
    exact ihb.filter _

/-- A function with unrolled loops reads the same names from outside. -/
theorem freeNames (hb : Unrolls known b b') (name : String) (ds : List Expr)
    (ps : List (Param Expr)) :
    (⟨name, ds, ps, b'⟩ : Definition).freeNames = (⟨name, ds, ps, b⟩ : Definition).freeNames := by
  have hbound : ∀ y, y ∈ Param.names ps ++ Stmt.bindsAll b' ↔
      y ∈ Param.names ps ++ Stmt.bindsAll b := by
    intro y
    rw [List.mem_append, List.mem_append, hb.mem_bindsAll]
  unfold Definition.freeNames
  rw [without_congr hbound]
  exact hb.readsAll.filter _

end Unrolls

/-- What names stand for in a frame, as far as it is known. -/
structure Sight where
  /-- The bindings of the body. -/
  here : String → Option Value
  /-- The bindings that the function around has captured, if there is a function. -/
  around? : Option (String → Option Value)
  /-- The bindings of the globals. -/
  beyond : String → Option Value

namespace Sight

variable (σ : Sight)

/-- What a name stands for. -/
def find? (x : String) : Option Value := σ.here x <|> σ.around?.bind (· x) <|> σ.beyond x

/-- What is in sight of a frame. -/
def ofFrame (f : Frame) (s : Store) : Sight :=
  ⟨(s.bindings f.locals).get?, f.captured?.map fun t => t.get?, (s.bindings f.globals).get?⟩

/-- What the body of a class sees, where it binds no name itself. -/
def inClass : Sight := { σ with here := fun _ => none }

/-- What the body of a function sees, where it binds no name itself, if these are the names that it
reads from outside. -/
def inFunction (free : List String) : Sight where
  here := fun _ => none
  around? := some fun x =>
    σ.around?.bind fun outer => if x ∈ free then σ.here x <|> outer x else none
  beyond := σ.beyond

end Sight

/-- The value has so many items, and they never change. -/
def Value.Counts (n : Nat) : Value → Prop
  | tuple _ items => items.length = n
  | str _ text => text.length = n
  | _ => False

namespace Stmt

mutual

/-- Every loop over a known name within the statement runs over as many items as are known, for the
name is not hidden where the loop stands, and the loop is left by `return` alone. -/
def Resolved (known : Table Extent) (hidden : String → Prop) (σ : Sight) : Stmt → Prop
  | each _ _ i b e =>
    (∀ x n, Unroll.known? known i = some (x, .sized n) → ¬ hidden x ∧
      (∃ v, σ.find? x = some v ∧ v.Counts n ∧ n < Run.lengthLimit) ∧
      ∃ c : Surroundings, c.inLoop = false ∧ misplacedIn? c b = none) ∧
    ResolvedAll known hidden σ b ∧ ResolvedAll known hidden σ e
  | cond _ _ a b => ResolvedAll known hidden σ a ∧ ResolvedAll known hidden σ b
  | loop _ _ b => ResolvedAll known hidden σ b
  | define _ name ds ps b =>
    ResolvedAll known (fun x => hidden x ∨ x ∈ Param.names ps ∨ x ∈ bindsAll b)
      (σ.inFunction (Definition.freeNames ⟨name, ds, ps, b⟩)) b
  | class_ _ _ _ b => ResolvedAll known (fun x => hidden x ∨ x ∈ bindsAll b) σ.inClass b
  | expr _ _ | assign _ _ _ | pass _ | ret _ _ | brk _ | cont _ => True

/-- Every loop over a known name within the statements runs over as many items as are known. -/
def ResolvedAll (known : Table Extent) (hidden : String → Prop) (σ : Sight) : List Stmt → Prop
  | [] => True
  | s :: ss => Resolved known hidden σ s ∧ ResolvedAll known hidden σ ss

end

mutual

theorem resolved_empty {hidden : String → Prop} {σ : Sight} (s : Stmt) :
    Resolved .empty hidden σ s := by
  cases s with
  | each span target iter body els =>
    refine ⟨fun x n hx => ?_, resolvedAll_empty body, resolvedAll_empty els⟩
    cases iter <;> cases hx
  | cond span test a b => exact ⟨resolvedAll_empty a, resolvedAll_empty b⟩
  | loop span test body => exact resolvedAll_empty body
  | define span name ds ps body => exact resolvedAll_empty body
  | class_ span name base body => exact resolvedAll_empty body
  | expr _ _ | assign _ _ _ | pass _ | ret _ _ | brk _ | cont _ => exact trivial

/-- Where nothing is known, no loop has to be resolved. -/
theorem resolvedAll_empty {hidden : String → Prop} {σ : Sight} (b : List Stmt) :
    ResolvedAll .empty hidden σ b := by
  cases b with
  | nil => exact trivial
  | cons s ss => exact ⟨resolved_empty s, resolvedAll_empty ss⟩

end

end Stmt

/-- A name has a value, or none, in a namespace that there is. -/
structure Fact where
  /-- The namespace. -/
  place : NamespaceRef
  /-- The name. -/
  name : String
  /-- The value, if there is one. -/
  value? : Option Value

/-- The fact is one of the store. -/
def Fact.Holds (s : Store) (φ : Fact) : Prop :=
  φ.place.index < s.namespaces.size ∧ (s.bindings φ.place).get? φ.name = φ.value?

/-! ## Functions and stores that differ by unrolling -/

section

variable (known : Table Extent) (base : Fact → Prop)

/-- The sight is what a frame shows, as far as names are not hidden: the bindings here are among the
facts, and the values beyond among the lasting ones. -/
structure Frame.Shows (facts : Fact → Prop) (hidden : String → Prop) (σ : Sight) (f : Frame) :
    Prop where
  here : ∀ x, ¬ hidden x → base ⟨f.locals, x, σ.here x⟩ ∨ facts ⟨f.locals, x, σ.here x⟩
  around : ∀ x, ¬ hidden x → f.captured?.map (fun t => t.get? x) = σ.around?.map (· x)
  beyond : ∀ x v, ¬ hidden x → σ.beyond x = some v → base ⟨f.globals, x, some v⟩

/-- The body of a function sees what its loops need. -/
structure Function.Sees (hidden : String → Prop) (σ : Sight) (f : Function) : Prop where
  resolved : Stmt.ResolvedAll known hidden σ f.definition.body
  params : ∀ x ∈ Param.names f.params, hidden x
  binds : ∀ x ∈ Stmt.bindsAll f.definition.body, hidden x
  here : ∀ x, σ.here x = none
  around : ∀ x, ¬ hidden x → some (f.captured.get? x) = σ.around?.map (· x)
  beyond : ∀ x v, ¬ hidden x → σ.beyond x = some v → base ⟨f.globals, x, some v⟩

/-- The function with another body. -/
def Function.withBody (f : Function) (b : List Stmt) : Function :=
  { f with definition := { f.definition with body := b } }

/-- The second function is the first, or the first with loops unrolled that see what they need. -/
inductive Function.Alike : Function → Function → Prop
  | same (f : Function) : Alike f f
  | unrolled {f : Function} {b : List Stmt} (hb : Unrolls known f.definition.body b)
      (hidden : String → Prop) (σ : Sight) (hf : f.Sees known base hidden σ) :
      Alike f (f.withBody b)

theorem Function.Alike.twin {known : Table Extent} {base : Fact → Prop} {f g : Function}
    (hfg : f.Alike known base g) : f.Twin g := by
  cases hfg with
  | same => exact ⟨rfl, rfl⟩
  | unrolled hb => exact ⟨rfl, hb.docstring?_eq⟩

/-- A function was looked up alike: there is none, or the second one is like the first. -/
inductive Function.FoundAlike (h : Hidden) : Option Function → Option Function → Prop
  | none : FoundAlike h .none .none
  | some {f g : Function} : f.Alike known base g → f.Avoids h → FoundAlike h (.some f) (.some g)

/-- The stores differ in unrolled functions alone, lead to nothing hidden, and have the facts. -/
structure Related (h : Hidden) (facts : Fact → Prop) (s t : Store) : Prop where
  eq : t = { s with functions := t.functions }
  names : ∀ r, (t.getFunction? r).map Function.name = (s.getFunction? r).map Function.name
  alike : ∀ r, ¬ h.functions r → ∀ f, s.getFunction? r = some f →
    ∃ g, t.getFunction? r = some g ∧ f.Alike known base g
  avoids : s.Avoids h
  hiddenFunctions : ∀ r, h.functions r → r.index < s.functions.size
  hiddenNamespaces : ∀ r, h.namespaces r → r.index < s.namespaces.size
  facts : ∀ φ, base φ ∨ facts φ → φ.Holds s

end

section

variable {known : Table Extent} {base : Fact → Prop} {h : Hidden} {facts facts' : Fact → Prop}
  {s t : Store}

namespace Fact.Holds

variable {φ : Fact}

theorem newNamespace (hφ : φ.Holds s) (b : Table Value) : φ.Holds (s.newNamespace b).2 := by
  obtain ⟨hlt, hget⟩ := hφ
  refine ⟨?_, ?_⟩
  · simp only [Store.newNamespace, Array.size_push]
    omega
  · have hb : (s.newNamespace b).2.bindings φ.place = s.bindings φ.place := by
      simp only [Store.newNamespace, Store.bindings]
      rw [Array.getElem?_push, if_neg (Nat.ne_of_lt hlt)]
    rw [hb, hget]

theorem bind (hφ : φ.Holds s) {r : NamespaceRef} {x : String} (hne : φ.place = r → φ.name ≠ x)
    (v : Value) : φ.Holds (s.bind r x v) := by
  obtain ⟨hlt, hget⟩ := hφ
  refine ⟨by rwa [Store.size_bind], ?_⟩
  by_cases hr : φ.place = r
  · subst hr
    rw [Store.bindings_bind x v hlt, Table.get?_insert, if_neg (hne rfl), hget]
  · rw [Store.bindings_bind_of_ne x v hr, hget]

end Fact.Holds

namespace Related

theorem weaken (hst : Related known base h facts' s t) (hsub : ∀ φ, facts φ → facts' φ) :
    Related known base h facts s t :=
  { hst with facts := fun φ hφ => hst.facts φ (hφ.imp id (hsub φ)) }

theorem functions_size (hst : Related known base h facts s t) :
    t.functions.size = s.functions.size := by
  have hiff (i : Nat) : i < t.functions.size ↔ i < s.functions.size := by
    have hnames := congrArg Option.isSome (hst.names ⟨i⟩)
    rw [Option.isSome_map, Option.isSome_map] at hnames
    simpa [Store.getFunction?] using congrArg (· = true) hnames
  have h1 := hiff t.functions.size
  have h2 := hiff s.functions.size
  omega

end Related

/-- Stores that differ by unrolling are kin. -/
theorem Related.kinship : Kinship h (Related known base h facts) where
  twin hst := ⟨hst.eq, hst.names, fun r hr f hf =>
    let ⟨g, hg, hfg⟩ := hst.alike r hr f hf
    ⟨g, hg, hfg.twin⟩⟩
  avoids hst := hst.avoids
  change {g} hg s t hst ha := by
    have hgt : g t = { g s with functions := t.functions } := by
      rw [hst.eq]
      exact hg.functions s t.functions
    have hft : (g t).functions = t.functions := hg.functions_eq t
    have hfs : (g s).functions = s.functions := hg.functions_eq s
    have hns : (g s).namespaces = s.namespaces := hg.namespaces s
    refine ⟨by rw [hft, hgt], ?_, ?_, ha, ?_, ?_, ?_⟩
    · intro r
      simpa only [Store.getFunction?, hft, hfs] using hst.names r
    · intro r hr f hf
      simp only [Store.getFunction?, hft, hfs] at hf ⊢
      exact hst.alike r hr f hf
    · rw [hfs]
      exact hst.hiddenFunctions
    · rw [hns]
      exact hst.hiddenNamespaces
    · intro φ hφ
      simpa only [Fact.Holds, Store.bindings, hns] using hst.facts φ hφ

theorem Related.pushNamespace (hst : Related known base h facts s t) {b : Table Value}
    (hb : b.Avoids h) :
    Related known base h facts (s.newNamespace b).2 (t.newNamespace b).2 := by
  refine ⟨?_, hst.names, hst.alike, hst.avoids.newNamespace hb, hst.hiddenFunctions, ?_, ?_⟩
  · have heq := hst.eq
    simp only [Store.newNamespace]
    rw [heq]
  · intro r hr
    have hlt := hst.hiddenNamespaces r hr
    simp only [Store.newNamespace, Array.size_push]
    omega
  · exact fun φ hφ => (hst.facts φ hφ).newNamespace b

end

end StagedScript
