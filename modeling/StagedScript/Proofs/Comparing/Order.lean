import Mathlib.Data.String.Basic
import StagedScript.Proofs.Comparing.Equality
import StagedScript.Shape.Hash

/-!
# Order and hashes by parts

How two values compare is how their parts do, and values that are equal have the same hash.
-/

/-!
## Order by parts

The order of two values without floats is that of their forms, and among equal forms that of the
first parts that differ.  It is the reverse of the order the other way round, it tells equal values
from others, and two orders in a row that do not descend make one.
-/

namespace StagedScript

namespace Comparison

/-- The comparison the other way round. -/
def swap : Comparison → Comparison
  | endless => endless
  | unordered => unordered
  | order o => order o.swap

theorem ofOrder?_ne_endless (o? : Option Ordering) : ofOrder? o? ≠ endless := by
  cases o? <;> exact Comparison.noConfusion

theorem andThen_order_eq (x : Comparison) : x.andThen (order .eq) = x := by
  rcases x with _ | _ | _ | _ | _ <;> rfl

theorem swap_andThen (x y : Comparison) : (x.andThen y).swap = x.swap.andThen y.swap := by
  rcases x with _ | _ | _ | _ | _ <;> rfl

theorem andThen_ne_endless {x y : Comparison} (hx : x ≠ endless) (hy : y ≠ endless) :
    x.andThen y ≠ endless := by
  rcases x with _ | _ | _ | _ | _
  · exact absurd rfl hx
  · exact Comparison.noConfusion
  · exact Comparison.noConfusion
  · exact hy
  · exact Comparison.noConfusion

/-- An order is found and tells what the proposition says: whether there is a difference. -/
def Tells (x : Comparison) (P : Prop) : Prop := ∀ o, x = order o → (o = .eq ↔ P)

theorem Tells.andThen {x y : Comparison} {P Q : Prop} (hx : Tells x P) (hy : Tells y Q) :
    Tells (x.andThen y) (P ∧ Q) := by
  intro o ho
  rcases x with _ | _ | _ | _ | _
  · cases ho
  · cases ho
  · cases ho
    exact iff_of_false nofun fun h => nomatch (hx _ rfl).2 h.1
  · rw [hy o ho]
    exact (and_iff_right ((hx _ rfl).1 rfl)).symm
  · cases ho
    exact iff_of_false nofun fun h => nomatch (hx _ rfl).2 h.1

/-- Two orders that do not descend make the third one, which ascends if one of them does. -/
def Composes (x y z : Comparison) : Prop :=
  ∀ o₁ o₂, x = order o₁ → y = order o₂ → o₁.isLE → o₂.isLE → z = order (o₁.then o₂)

theorem Composes.andThen {x y z x' y' z' : Comparison} (h : Composes x y z)
    (h' : Composes x' y' z') : Composes (x.andThen x') (y.andThen y') (z.andThen z') := by
  intro o₁ o₂ hx hy h₁ h₂
  -- Where the first order finds a difference it is that of the two, else that of the rest.
  rcases x with _ | _ | _ | _ | _
  · cases hx
  · cases hx
  · cases hx
    rcases y with _ | _ | _ | _ | _
    · cases hy
    · cases hy
    · rw [h _ _ rfl rfl rfl rfl]; rfl
    · rw [h _ _ rfl rfl rfl rfl]; rfl
    · cases hy; cases h₂
  · rcases y with _ | _ | _ | _ | _
    · cases hy
    · cases hy
    · cases hy
      rw [h _ _ rfl rfl rfl rfl]
      cases o₁ with
      | gt => cases h₁
      | _ => rfl
    · rw [h _ _ rfl rfl rfl rfl]
      exact h' _ _ hx hy h₁ h₂
    · cases hy; cases h₂
  · cases hx; cases h₁

theorem composes_linear {α : Type} [LinearOrder α] (x y z : α) :
    Composes (order (compare x y)) (order (compare y z)) (order (compare x z)) := by
  rintro _ _ ⟨⟩ ⟨⟩ hxy hyz
  rw [← Ordering.ne_gt_iff_isLE] at hxy hyz
  have hxy := compare_le_iff_le.1 hxy
  have hyz := compare_le_iff_le.1 hyz
  refine congrArg order ?_
  rcases hxy.lt_or_eq with hlt | rfl
  · rw [compare_lt_iff_lt.2 hlt, compare_lt_iff_lt.2 (hlt.trans_le hyz)]
    rfl
  · rw [compare_eq_iff_eq.2 rfl]
    rfl

end Comparison

open Comparison (Tells Composes)

namespace Form

/-- The order of two forms, where they have one. -/
def compare : Form → Form → Comparison
  | number m, number n => .order (Ord.compare m.toInt n.toInt)
  | text t, text u => .order (Ord.compare t u)
  | positional, positional | list, list => .order .eq
  | _, _ => .unordered

variable {f g h : Form} {o : Ordering}

theorem compare_swap : compare g f = (compare f g).swap := by
  cases f <;> cases g <;> first | rfl | exact congrArg Comparison.order Std.OrientedOrd.eq_swap

/-- The forms that have an order. -/
theorem compare_eq_order (ho : compare f g = .order o) :
    (∃ m n : Int64, f = number m ∧ g = number n ∧ o = Ord.compare m.toInt n.toInt) ∨
      (∃ t u : String, f = text t ∧ g = text u ∧ o = Ord.compare t u) ∨
      ((f = positional ∨ f = list) ∧ g = f ∧ o = .eq) := by
  cases f <;> cases g <;> cases ho
  case number.number.refl m n => exact .inl ⟨m, n, rfl, rfl, rfl⟩
  case text.text.refl t u => exact .inr (.inl ⟨t, u, rfl, rfl, rfl⟩)
  case positional.positional.refl => exact .inr (.inr ⟨.inl rfl, rfl, rfl⟩)
  case list.list.refl => exact .inr (.inr ⟨.inr rfl, rfl, rfl⟩)

theorem tells_compare : Tells (compare f g) (f = g) := by
  intro o ho
  obtain ⟨m, n, rfl, rfl, rfl⟩ | ⟨t, u, rfl, rfl, rfl⟩ | ⟨-, rfl, rfl⟩ := compare_eq_order ho
  · rw [compare_eq_iff_eq, Int64.toInt_inj, number.injEq]
  · rw [compare_eq_iff_eq, text.injEq]
  · exact iff_of_true rfl rfl

theorem composes_compare : Composes (compare f g) (compare g h) (compare f h) := by
  intro o₁ o₂ hfg hgh
  obtain ⟨m, n, rfl, rfl, -⟩ | ⟨t, u, rfl, rfl, -⟩ | ⟨-, rfl, rfl⟩ := compare_eq_order hfg
  · obtain ⟨_, k, -, rfl, -⟩ | ⟨_, _, ⟨⟩, -⟩ | ⟨⟨⟨⟩⟩ | ⟨⟨⟩⟩, -⟩ := compare_eq_order hgh
    exact Comparison.composes_linear m.toInt n.toInt k.toInt o₁ o₂ hfg hgh
  · obtain ⟨_, _, ⟨⟩, -⟩ | ⟨_, v, -, rfl, -⟩ | ⟨⟨⟨⟩⟩ | ⟨⟨⟩⟩, -⟩ := compare_eq_order hgh
    exact Comparison.composes_linear t u v o₁ o₂ hfg hgh
  · exact fun _ _ => hgh

end Form

/-- The order of two lists, given that of their members: that of the first ones that differ, or that
of the lengths. -/
def compareAll {α : Type} (compare : α → α → Comparison) : List α → List α → Comparison
  | [], [] => .order .eq
  | [], _ :: _ => .order .lt
  | _ :: _, [] => .order .gt
  | x :: xs, y :: ys => (compare x y).andThen (compareAll compare xs ys)

section

variable {α : Type} {compare : α → α → Comparison}

theorem compareAll_swap {xs ys : List α}
    (h : ∀ x ∈ xs, ∀ y ∈ ys, compare y x = (compare x y).swap) :
    compareAll compare ys xs = (compareAll compare xs ys).swap := by
  induction xs generalizing ys with
  | nil => cases ys <;> rfl
  | cons x xs ih =>
    cases ys with
    | nil => rfl
    | cons y ys =>
      rw [compareAll, compareAll, Comparison.swap_andThen, h x (by simp) y (by simp),
        ih fun x hx y hy => h x (by simp [hx]) y (by simp [hy])]

theorem compareAll_ne_endless {xs ys : List α}
    (h : ∀ x ∈ xs, ∀ y ∈ ys, compare x y ≠ .endless) : compareAll compare xs ys ≠ .endless := by
  induction xs generalizing ys with
  | nil => cases ys <;> exact Comparison.noConfusion
  | cons x xs ih =>
    cases ys with
    | nil => exact Comparison.noConfusion
    | cons y ys =>
      exact Comparison.andThen_ne_endless (h x (by simp) y (by simp))
        (ih fun x hx y hy => h x (by simp [hx]) y (by simp [hy]))

theorem tells_compareAll {R : α → α → Prop} {xs ys : List α}
    (h : ∀ x ∈ xs, ∀ y ∈ ys, Tells (compare x y) (R x y)) :
    Tells (compareAll compare xs ys) (List.Forall₂ R xs ys) := by
  induction xs generalizing ys with
  | nil =>
    cases ys with
    | nil => exact fun o ho => by cases ho; exact iff_of_true rfl .nil
    | cons y ys => exact fun o ho => by cases ho; exact iff_of_false nofun nofun
  | cons x xs ih =>
    cases ys with
    | nil => exact fun o ho => by cases ho; exact iff_of_false nofun nofun
    | cons y ys =>
      rw [compareAll, List.forall₂_cons]
      exact (h x (by simp) y (by simp)).andThen
        (ih fun x hx y hy => h x (by simp [hx]) y (by simp [hy]))

theorem composes_compareAll {xs ys zs : List α}
    (h : ∀ x ∈ xs, ∀ y ∈ ys, ∀ z ∈ zs, Composes (compare x y) (compare y z) (compare x z)) :
    Composes (compareAll compare xs ys) (compareAll compare ys zs) (compareAll compare xs zs) := by
  induction xs generalizing ys zs with
  | nil =>
    intro o₁ o₂ hx hy h₁ h₂
    cases ys with
    | nil => cases hx; rw [hy]; rfl
    | cons y ys =>
      cases hx
      cases zs with
      | nil => cases hy; cases h₂
      | cons z zs => rfl
  | cons x xs ih =>
    cases ys with
    | nil => exact fun o₁ o₂ hx _ h₁ => by cases hx; cases h₁
    | cons y ys =>
      cases zs with
      | nil => exact fun o₁ o₂ _ hy _ h₂ => by cases hy; cases h₂
      | cons z zs =>
        rw [compareAll, compareAll, compareAll]
        exact (h x (by simp) y (by simp) z (by simp)).andThen
          (ih fun x hx y hy z hz => h x (by simp [hx]) y (by simp [hy]) z (by simp [hz]))

end

namespace Store

variable {s : Store} {a b c : Value}

theorem compare_shapes {xs ys : List Value} :
    (s.shapes xs).compare (s.shapes ys) = compareAll s.compare xs ys := by
  induction xs generalizing ys with
  | nil => cases ys <;> rfl
  | cons x xs ih =>
    cases ys with
    | nil => rfl
    | cons y ys =>
      rw [compareAll, ← ih]
      rfl

/-- Values are compared by their forms and then by their parts. -/
theorem compare_eq (ha : s.Discrete a) (hb : s.Discrete b) :
    s.compare a b =
      (a.form.compare b.form).andThen (compareAll s.compare (s.parts a) (s.parts b)) := by
  change (s.shape a).compare (s.shape b) = _
  rw [ha.acyclic.shape_eq, hb.acyclic.shape_eq]
  cases a <;> cases b
  all_goals first | exact absurd rfl ha.form_ne | exact absurd rfl hb.form_ne | skip
  all_goals try rfl
  case bool.bool | bool.int | int.bool | int.int => exact (Comparison.andThen_order_eq _).symm
  case str.str i t j u =>
    change _ = (Comparison.order (Ord.compare t u)).andThen (.order .eq)
    rw [Comparison.andThen_order_eq, LinearOrder.compare_eq_compareOfLessAndEq]
    rfl
  case tuple.tuple | tuple.record | record.tuple | record.record | list.list =>
    exact compare_shapes

theorem compare_swap (ha : s.Discrete a) (hb : s.Discrete b) :
    s.compare b a = (s.compare a b).swap := by
  induction a, ha using Discrete.induct generalizing b with
  | step a ha ih =>
    rw [compare_eq hb ha, compare_eq ha hb, Comparison.swap_andThen, ← Form.compare_swap,
      ← compareAll_swap fun x hx y hy => ih x hx (hb.part hy)]

theorem tells_compare (ha : s.Discrete a) (hb : s.Discrete b) :
    Tells (s.compare a b) (s.equal a b = some true) := by
  induction a, ha using Discrete.induct generalizing b with
  | step a ha ih =>
    intro o ho
    rw [compare_eq ha hb] at ho
    rw [equal_iff ha hb, (@Form.tells_compare a.form b.form).andThen
      (tells_compareAll fun x hx y hy => ih x hx (hb.part hy)) o ho]
    refine and_congr_right fun hform => ?_
    have hne : a.form ≠ .dict := by
      intro h
      rw [← hform, h] at ho
      cases ho
    exact (matched_iff_forall₂ hne (hform ▸ hne)).symm

theorem composes_compare (ha : s.Discrete a) (hb : s.Discrete b) (hc : s.Discrete c) :
    Composes (s.compare a b) (s.compare b c) (s.compare a c) := by
  induction a, ha using Discrete.induct generalizing b c with
  | step a ha ih =>
    rw [compare_eq ha hb, compare_eq hb hc, compare_eq ha hc]
    exact Form.composes_compare.andThen (composes_compareAll fun x hx y hy z hz =>
      ih x hx (hb.part hy) (hc.part hz))

/-! ### Comparisons that end -/

theorem equal_shapes_ne_none {xs ys : List Value}
    (h : ∀ x ∈ xs, ∀ y ∈ ys, s.equal x y ≠ none) : (s.shapes xs).equal (s.shapes ys) ≠ none := by
  induction xs generalizing ys with
  | nil => cases ys <;> exact Option.some_ne_none _
  | cons x xs ih =>
    cases ys with
    | nil => exact Option.some_ne_none _
    | cons y ys =>
      exact bothHold_ne_none (h x (by simp) y (by simp))
        (ih fun x hx y hy => h x (by simp [hx]) y (by simp [hy]))

theorem among_namedShapes_ne_none {es fs : List (String × Value)}
    (h : ∀ e ∈ es, ∀ f ∈ fs, s.equal e.2 f.2 ≠ none) :
    (s.namedShapes es).among (s.namedShapes fs) ≠ none := by
  induction es with
  | nil => exact Option.some_ne_none _
  | cons e es ih =>
    obtain ⟨he, hes⟩ := List.forall_mem_cons.1 h
    refine bothHold_ne_none ?_ (ih hes)
    rw [get?_namedShapes]
    cases hf : fs.lookup e.1 with
    | none => exact Option.some_ne_none _
    | some w =>
      obtain ⟨fs, gs, rfl, -⟩ := List.lookup_eq_some_iff.1 hf
      exact he (e.1, w) (by simp)

/-- The comparison of values that come to an end has one, and they are equal or not. -/
theorem Acyclic.equal_ne_none (ha : s.Acyclic a) (hb : s.Acyclic b) : s.equal a b ≠ none := by
  induction a, ha using Acyclic.induct generalizing b with
  | step a ha ih =>
    have hitems {xs ys : List Value} (hxs : ∀ x ∈ xs, s.Part a x) (hys : ∀ y ∈ ys, s.Part b y) :=
      bothHold_ne_none (Option.some_ne_none ((s.shapes xs).size == (s.shapes ys).size))
        (equal_shapes_ne_none fun x hx y hy => ih x (hxs x hx) (hb.part (hys y hy)))
    have hshared {same : Prop} [Decidable same] {e : Option Bool} (he : e ≠ none) :
        (if same then some true else e) ≠ none := by
      split
      · exact Option.some_ne_none _
      · exact he
    unfold equal
    rw [ha.shape_eq, hb.shape_eq]
    cases a <;> cases b
    all_goals try exact Option.some_ne_none _
    case tuple.tuple | tuple.record | record.tuple => exact hitems (fun _ => id) (fun _ => id)
    case list.list | record.record =>
      exact hshared (hitems (fun _ => id) (fun _ => id))
    case dict.dict =>
      refine hshared (bothHold_ne_none (Option.some_ne_none _) ?_)
      exact among_namedShapes_ne_none fun e he f hf =>
        ih e.2 (mem_values he) (hb.part (mem_values hf))

/-- The comparison of values that come to an end has one, and they have an order or none. -/
theorem Acyclic.compare_ne_endless (ha : s.Acyclic a) (hb : s.Acyclic b) :
    s.compare a b ≠ .endless := by
  induction a, ha using Acyclic.induct generalizing b with
  | step a ha ih =>
    have hitems {xs ys : List Value} (hxs : ∀ x ∈ xs, s.Part a x) (hys : ∀ y ∈ ys, s.Part b y) :
        (s.shapes xs).compare (s.shapes ys) ≠ .endless := by
      rw [compare_shapes]
      exact compareAll_ne_endless fun x hx y hy => ih x (hxs x hx) (hb.part (hys y hy))
    unfold compare
    rw [ha.shape_eq, hb.shape_eq]
    cases a <;> cases b
    case tuple.tuple | tuple.record | record.tuple | record.record | list.list =>
      exact hitems (fun _ => id) (fun _ => id)
    all_goals first | exact Comparison.noConfusion | exact Comparison.ofOrder?_ne_endless _

/-- A comparison without an end meets a container that holds itself. -/
theorem looped_of_equal_eq_none (h : s.equal a b = none) : s.Looped := by
  by_contra hlooped
  exact (acyclic_of_not_looped hlooped a).equal_ne_none (acyclic_of_not_looped hlooped b) h

theorem looped_of_compare_eq_endless (h : s.compare a b = .endless) : s.Looped := by
  by_contra hlooped
  exact (acyclic_of_not_looped hlooped a).compare_ne_endless (acyclic_of_not_looped hlooped b) h

/-- The laws of equality and of order on values that come to an end and have no floats in them: they
can be compared, equality is an equivalence, the order the other way round is the reverse of an
order, equal values are those with the order of equals where there is an order, and two orders that
do not descend make one, which ascends if one of them does. -/
theorem equal_compare_lawful (ha : s.Discrete a) (hb : s.Discrete b) (hc : s.Discrete c) :
    s.equal a b ≠ none ∧ s.compare a b ≠ .endless ∧
    s.equal a a = some true ∧
    (s.equal a b = some true → s.equal b a = some true) ∧
    (s.equal a b = some true → s.equal b c = some true → s.equal a c = some true) ∧
    s.compare b a = (s.compare a b).swap ∧
    (∀ o, s.compare a b = .order o → (o = .eq ↔ s.equal a b = some true)) ∧
    (∀ o₁ o₂, s.compare a b = .order o₁ → s.compare b c = .order o₂ → o₁.isLE → o₂.isLE →
      s.compare a c = .order (o₁.then o₂)) :=
  ⟨ha.acyclic.equal_ne_none hb.acyclic, ha.acyclic.compare_ne_endless hb.acyclic,
    equal_self ha, equal_symm ha hb, equal_trans ha hb hc, compare_swap ha hb, tells_compare ha hb,
    composes_compare ha hb hc⟩

/-- A tuple with the first of the dicts. -/
def sampleRow : Value := .tuple 0 [.int 1, .dict ⟨0⟩]

theorem sampleRow_lawful :
    sampleDicts.Discrete sampleRow ∧ sampleDicts.Discrete (.record ⟨0⟩) ∧
    sampleDicts.equal sampleRow (.record ⟨0⟩) = some true ∧
    sampleDicts.equal (.record ⟨0⟩) sampleRow = some true ∧
    sampleDicts.compare (.tuple 1 [.bool false]) (.record ⟨0⟩) = .order .lt ∧
    sampleDicts.compare (.record ⟨0⟩) (.tuple 2 [.int 2]) = .order .lt ∧
    sampleDicts.compare (.tuple 1 [.bool false]) (.tuple 2 [.int 2]) = .order .lt := by
  have hint (n : Int64) : sampleDicts.Discrete (.int n) := .of_parts Form.noConfusion nofun
  have hbool (b : Bool) : sampleDicts.Discrete (.bool b) := .of_parts Form.noConfusion nofun
  have hpair {v w : Value} (hv : sampleDicts.Discrete v) (hw : sampleDicts.Discrete w) :
      ∀ x ∈ [v, w], sampleDicts.Discrete x := by simp [hv, hw]
  have hrow : sampleDicts.Discrete sampleRow :=
    .of_parts Form.noConfusion (hpair (hint 1)
      (.of_parts Form.noConfusion (hpair (hint 1) (hint 2))))
  have hrecord : sampleDicts.Discrete (.record ⟨0⟩) :=
    .of_parts Form.noConfusion
      (hpair (hbool true) (.of_parts Form.noConfusion (hpair (hint 2) (hbool true))))
  have hfirst : sampleDicts.Discrete (.tuple 1 [.bool false]) :=
    .of_parts Form.noConfusion (by simp [Part, parts, hbool])
  have hlast : sampleDicts.Discrete (.tuple 2 [.int 2]) :=
    .of_parts Form.noConfusion (by simp [Part, parts, hint])
  have hequal : sampleDicts.equal sampleRow (.record ⟨0⟩) = some true := by decide +kernel
  have hlt : sampleDicts.compare (.tuple 1 [.bool false]) (.record ⟨0⟩) = .order .lt := by
    decide +kernel
  have hlt' : sampleDicts.compare (.record ⟨0⟩) (.tuple 2 [.int 2]) = .order .lt := by
    decide +kernel
  obtain ⟨-, -, -, hsymm, -⟩ := equal_compare_lawful hrow hrecord hrow
  obtain ⟨-, -, -, -, -, -, -, htrans⟩ := equal_compare_lawful hfirst hrecord hlast
  exact ⟨hrow, hrecord, hequal, hsymm hequal, hlt, hlt', htrans _ _ hlt hlt' rfl rfl⟩

end Store

end StagedScript

/-!
## Hashes by parts

What a value without floats contributes to a hash depends on its form and on its parts, in their
order.  Equality has no regard to the order of the entries of dicts, so that values that are equal
contribute alike if those of their dicts that are equal have their entries in one order.
-/

namespace StagedScript

/-- What a form contributes to a hash, given how many parts the value has. -/
def Form.hashParts (parts : Nat) : Form → List HashPart
  | none_ => [.none_]
  | number n => [.int n]
  | text t => [.text t]
  | positional => [.positional, .count parts]
  | list => [.count parts]
  | range r => [.int r.start, .int r.stop, .int r.step]
  | slot i => [.count i]
  | builtin b => [.builtin b]
  | function r => [.object "function" r.index]
  | native i => [.object "native" i]
  | method i => [.object "method" i]
  | recordType r => [.object "type" r.index]
  | float | dict => []

namespace Store

/-- What a value contributes to a hash. -/
def hashParts (s : Store) (v : Value) : List HashPart := (s.shape v).hashParts

variable {s : Store} {a b v : Value}

theorem hashParts_shapes (vs : List Value) :
    (s.shapes vs).hashParts = vs.flatMap s.hashParts := by
  induction vs with
  | nil => rfl
  | cons v vs ih => rw [List.flatMap_cons, ← ih]; rfl

theorem hashParts_namedShapes (es : List (String × Value)) :
    (s.namedShapes es).hashParts = es.flatMap fun e => .text e.1 :: s.hashParts e.2 := by
  induction es with
  | nil => rfl
  | cons e es ih => rw [List.flatMap_cons, ← ih]; rfl

/-- A value that is no dict contributes its form and then its parts. -/
theorem hashParts_eq (hv : s.Discrete v) (hdict : v.form ≠ .dict) :
    s.hashParts v = v.form.hashParts (s.parts v).length ++ (s.parts v).flatMap s.hashParts := by
  change (s.shape v).hashParts = _
  rw [hv.acyclic.shape_eq]
  have hitems (vs : List Value) : HashPart.count (s.shapes vs).size :: (s.shapes vs).hashParts =
      .count vs.length :: vs.flatMap s.hashParts := by
    rw [size_shapes, hashParts_shapes]
  cases v
  all_goals try exact absurd rfl hdict
  all_goals try exact absurd rfl hv.form_ne
  all_goals try rfl
  case tuple i items => exact congrArg (HashPart.positional :: ·) (hitems items)
  case record r => exact congrArg (HashPart.positional :: ·) (hitems _)
  case list r => exact hitems _

theorem hashParts_dict {r : DictRef} (hr : s.Acyclic (.dict r)) :
    s.hashParts (.dict r) =
      (s.dictEntries r).entries.flatMap fun e => .text e.1 :: s.hashParts e.2 := by
  change (s.shape _).hashParts = _
  rw [hr.shape_eq]
  exact hashParts_namedShapes _

/-- Two tables with the same names in one order and related values have related entries in that
order. -/
theorem forall₂_entries {R : Value → Value → Prop} {t u : Table Value} (hkeys : t.keys = u.keys)
    (h : ∀ k, Option.Rel R (t.get? k) (u.get? k)) :
    List.Forall₂ (fun e f => e.1 = f.1 ∧ R e.2 f.2) t.entries u.entries := by
  refine List.forall₂_iff_get.2 ⟨?_, fun i hi hi' => ?_⟩
  · simpa only [Table.keys, Entries.keys, List.length_map] using congrArg List.length hkeys
  · have hname : (t.entries.get ⟨i, hi⟩).1 = (u.entries.get ⟨i, hi'⟩).1 := by
      have hget := congrArg (·[i]?) hkeys
      simpa [Table.keys, Entries.keys, List.getElem?_eq_getElem hi, List.getElem?_eq_getElem hi']
        using hget
    refine ⟨hname, ?_⟩
    have hrel := h (t.entries.get ⟨i, hi⟩).1
    rw [Table.get?_of_mem (List.get_mem ..), hname, Table.get?_of_mem (List.get_mem ..)] at hrel
    cases hrel with
    | some hrel => exact hrel

theorem flatMap_congr_forall₂ {α β γ : Type} {R : α → β → Prop} {f : α → List γ} {g : β → List γ}
    {xs : List α} {ys : List β} (h : List.Forall₂ R xs ys)
    (hfg : ∀ x ∈ xs, ∀ y ∈ ys, R x y → f x = g y) :
    xs.flatMap f = ys.flatMap g := by
  induction h with
  | nil => rfl
  | cons hxy _ ih =>
    rw [List.flatMap_cons, List.flatMap_cons, hfg _ (by simp) _ (by simp) hxy,
      ih fun x hx y hy => hfg x (by simp [hx]) y (by simp [hy])]

/-- Values that are equal contribute alike to a hash, if equal dicts in them have their entries in
one order: truth values and integers, tuples and records, and all that is made of them. -/
theorem hashParts_eq_of_equal (ha : s.Discrete a) (hb : s.Discrete b)
    (horder : ∀ r q, s.Contains a (.dict r) → s.Contains b (.dict q) →
      s.equal (.dict r) (.dict q) = some true → (s.dictEntries r).keys = (s.dictEntries q).keys)
    (h : s.equal a b = some true) : s.hashParts a = s.hashParts b := by
  induction a, ha using Discrete.induct generalizing b with
  | step a ha ih =>
    obtain ⟨hform, hparts⟩ := (equal_iff ha hb).1 h
    have hpart {v w : Value} (hv : s.Part a v) (hw : s.Part b w) (hvw : s.equal v w = some true) :
        s.hashParts v = s.hashParts w :=
      ih v hv (hb.part hw) (fun r q hr hq => horder r q (.head hv hr) (.head hw hq)) hvw
    by_cases hdict : a.form = .dict
    · obtain ⟨r, rfl⟩ : ∃ r, a = .dict r := by cases a <;> first | exact ⟨_, rfl⟩ | cases hdict
      obtain ⟨q, rfl⟩ : ∃ q, b = .dict q := by cases b <;> first | exact ⟨_, rfl⟩ | cases hform
      rw [hashParts_dict ha.acyclic, hashParts_dict hb.acyclic]
      have hkeys := horder r q .refl .refl h
      refine flatMap_congr_forall₂ (forall₂_entries hkeys (matched_dict.1 hparts)) ?_
      rintro ⟨k, v⟩ hv ⟨k', w⟩ hw ⟨hk, hvw⟩
      dsimp only at hk hvw ⊢
      rw [hk, hpart (mem_values hv) (mem_values hw) hvw]
    · have hitems := (matched_iff_forall₂ hdict (hform ▸ hdict)).1 hparts
      rw [hashParts_eq ha hdict, hashParts_eq hb (hform ▸ hdict), hform, hitems.length_eq]
      exact congrArg _ (flatMap_congr_forall₂ hitems fun x hx y hy => hpart hx hy)

/-- The two dicts of the sample are equal and contribute their entries in different orders. -/
theorem sampleDicts_hash_apart : sampleDicts.equal (.dict ⟨0⟩) (.dict ⟨1⟩) = some true ∧
    sampleDicts.hashParts (.dict ⟨0⟩) ≠ sampleDicts.hashParts (.dict ⟨1⟩) := by
  decide +kernel

end Store

end StagedScript
