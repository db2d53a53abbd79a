import Mathlib.Data.List.Perm.Subperm
import Mathlib.Logic.Relation
import StagedScript.Proofs.Data.Showing
import StagedScript.Proofs.Tables
import StagedScript.Shape.Order

/-!
# Equality of values without floats

The parts of a value, and how two values are told to be equal by theirs.
-/

/-!
## The parts of a value

A value has parts: the items of a tuple, and what a container holds in the store.  If no part of a
value is a part of itself, the value comes to an end, and its shape is made of the shapes of its
parts.
-/

namespace StagedScript

namespace Store

/-- What a value holds directly. -/
def parts (s : Store) : Value → List Value
  | .tuple _ items => items
  | .list r => (s.listItems r).toList
  | .dict r => (s.dictEntries r).values
  | .record r => (s.getRecord r).slots
  | _ => []

/-- The second value is a part of the first one. -/
def Part (s : Store) (v w : Value) : Prop := w ∈ s.parts v

/-- The second value is the first one, or a part of it at any depth. -/
abbrev Contains (s : Store) : Value → Value → Prop := Relation.ReflTransGen s.Part

/-- No value that is contained is a part of itself at any depth. -/
def Acyclic (s : Store) (v : Value) : Prop :=
  ∀ w, s.Contains v w → ¬ Relation.TransGen s.Part w w

variable {s : Store} {v w : Value}

theorem parts_value (s : Store) (c : Container) : s.parts c.value = s.held c := by
  cases c <;> rfl

theorem Acyclic.part (hv : s.Acyclic v) (hw : s.Part v w) : s.Acyclic w :=
  fun x hx => hv x (.head hw hx)

/-- A value has an end if its parts have. -/
theorem Acyclic.of_parts (h : ∀ w, s.Part v w → s.Acyclic w) : s.Acyclic v := by
  intro w hw hcycle
  rcases hw.cases_head with rfl | ⟨x, hx, hxw⟩
  · obtain ⟨x, hx, hxv⟩ := Relation.TransGen.head'_iff.1 hcycle
    exact h x hx x .refl (Relation.TransGen.tail'_iff.2 ⟨_, hxv, hx⟩)
  · exact h x hx w hxw hcycle

/-- What stands above a value with an end is not the value itself. -/
theorem Acyclic.not_above {active : List Container} {c : Container} (hv : s.Acyclic c.value)
    (habove : ∀ d ∈ active, Relation.TransGen s.Part d.value c.value) : c ∉ active :=
  fun hc => hv _ .refl (habove c hc)

theorem above_cons {active : List Container} {c : Container} (hw : s.Part c.value w)
    (habove : ∀ d ∈ active, Relation.TransGen s.Part d.value c.value) :
    ∀ d ∈ c :: active, Relation.TransGen s.Part d.value w := by
  intro d hd
  rcases List.mem_cons.1 hd with rfl | hd
  · exact .single hw
  · exact (habove d hd).tail hw

/-- What has a part is in the store. -/
theorem mem_everyContainer_of_part {c : Container} (hw : s.Part c.value w) :
    c ∈ s.everyContainer := by
  by_contra hc
  unfold Part at hw
  rw [parts_value, held_eq_nil hc] at hw
  cases hw

/-- A property of every value with an end, if a value has it as soon as its parts do. -/
theorem Acyclic.induct {P : (v : Value) → s.Acyclic v → Prop}
    (step : ∀ v hv, (∀ w (hw : s.Part v w), P w (Acyclic.part hv hw)) → P v hv) (v : Value)
    (hv : s.Acyclic v) : P v hv := by
  -- On the way down every container is met once, so that there are ever fewer others.
  suffices h : ∀ (n : Nat) (active : List Container) (v : Value), s.others active = n →
      ∀ hv : s.Acyclic v, (∀ c ∈ active, Relation.TransGen s.Part c.value v) → P v hv from
    h _ [] v rfl hv (by simp)
  intro n
  induction n using Nat.strongRecOn with
  | ind n ihn =>
    intro active v hn hv habove
    induction hm : sizeOf v using Nat.strongRecOn generalizing v with
    | ind m ihm =>
      have hcontainer (c : Container) (hc : v = c.value) : P v hv := by
        subst hc
        refine step _ hv fun w hw => ?_
        have hlt := others_lt (mem_everyContainer_of_part hw) (hv.not_above habove)
        exact ihn _ (hn ▸ hlt) (c :: active) w rfl (hv.part hw) (above_cons hw habove)
      cases v with
      | tuple i items =>
        refine step _ hv fun w hw => ?_
        have hsize := List.sizeOf_lt_of_mem (show w ∈ items from hw)
        exact ihm _ (by rw [← hm, Value.tuple.sizeOf_spec]; omega) w (hv.part hw)
          (fun c hc => (habove c hc).tail hw) rfl
      | list r => exact hcontainer (.list r) rfl
      | dict r => exact hcontainer (.dict r) rfl
      | record r => exact hcontainer (.record r) rfl
      | _ => exact step _ hv fun w hw => absurd hw List.not_mem_nil

/-- Some container holds itself, at some depth. -/
def Looped (s : Store) : Prop := ∃ c : Container, Relation.TransGen s.Part c.value c.value

/-- What is a part of itself is so by way of a container. -/
theorem looped_of_cycle (h : Relation.TransGen s.Part v v) : s.Looped := by
  induction hn : sizeOf v using Nat.strongRecOn generalizing v with
  | ind n ih =>
    obtain ⟨w, hw, hwv⟩ := Relation.TransGen.head'_iff.1 h
    cases v with
    | tuple i items =>
      -- An item of a tuple is smaller, and in a cycle if the tuple is.
      have hlt := List.sizeOf_lt_of_mem (show w ∈ items from hw)
      refine ih (sizeOf w) ?_ (Relation.TransGen.tail'_iff.2 ⟨_, hwv, hw⟩) rfl
      rw [← hn, Value.tuple.sizeOf_spec]
      omega
    | list r => exact ⟨.list r, h⟩
    | dict r => exact ⟨.dict r, h⟩
    | record r => exact ⟨.record r, h⟩
    | _ => cases hw

/-- Where no container holds itself every value comes to an end. -/
theorem acyclic_of_not_looped (h : ¬ s.Looped) (v : Value) : s.Acyclic v :=
  fun _ _ hcycle => h (looped_of_cycle hcycle)

/-! ## Shapes -/

theorem unfoldAll_congr {inside inside' : Container → Shape} {vs : List Value}
    (h : ∀ v ∈ vs, v.unfold s inside = v.unfold s inside') :
    Value.unfoldAll s inside vs = Value.unfoldAll s inside' vs := by
  induction vs with
  | nil => rfl
  | cons v vs ih =>
    rw [Value.unfoldAll, Value.unfoldAll, h v (by simp), ih fun w hw => h w (by simp [hw])]

theorem unfoldEntries_congr {inside inside' : Container → Shape} {es : List (String × Value)}
    (h : ∀ e ∈ es, e.2.unfold s inside = e.2.unfold s inside') :
    Value.unfoldEntries s inside es = Value.unfoldEntries s inside' es := by
  induction es with
  | nil => rfl
  | cons e es ih =>
    rw [Value.unfoldEntries, Value.unfoldEntries, h e (by simp), ih fun e he => h e (by simp [he])]

/-- The shape of a container at a depth depends on those of its parts at the depth below. -/
theorem containerShape_congr {d d' : Nat} {c : Container}
    (h : ∀ w, s.Part c.value w →
      w.unfold s (s.containerShape d) = w.unfold s (s.containerShape d')) :
    s.containerShape (d + 1) c = s.containerShape (d' + 1) c := by
  cases c with
  | list r =>
    unfold containerShape
    exact congrArg (Shape.list r) (funext fun _ => unfoldAll_congr h)
  | dict r =>
    unfold containerShape
    exact congrArg (Shape.dict r) (funext fun _ =>
      unfoldEntries_congr fun e he => h e.2 (mem_values he))
  | record r =>
    unfold containerShape
    exact congrArg (Shape.record r _ _) (funext fun _ => unfoldAll_congr h)

/-- A value with an end is written out alike at all depths that are past the number of the
containers that do not stand above it. -/
theorem Acyclic.unfold_eq (hv : s.Acyclic v) {active : List Container}
    (habove : ∀ c ∈ active, Relation.TransGen s.Part c.value v) {d d' : Nat}
    (hd : s.others active < d) (hd' : s.others active < d') :
    v.unfold s (s.containerShape d) = v.unfold s (s.containerShape d') := by
  induction v, hv using Acyclic.induct generalizing active d d' with
  | step v hv ih =>
    have hcontainer (c : Container) (hc : v = c.value) :
        s.containerShape d c = s.containerShape d' c := by
      subst hc
      obtain ⟨d, rfl⟩ : ∃ n, d = n + 1 := ⟨d - 1, by omega⟩
      obtain ⟨d', rfl⟩ : ∃ n, d' = n + 1 := ⟨d' - 1, by omega⟩
      refine containerShape_congr fun w hw => ?_
      have hlt := others_lt (mem_everyContainer_of_part hw) (hv.not_above habove)
      exact ih w hw (above_cons hw habove) (by omega) (by omega)
    cases v with
    | tuple i items =>
      exact congrArg Shape.tuple (funext fun _ => unfoldAll_congr fun w hw =>
        ih w hw (fun c hc => (habove c hc).tail hw) hd hd')
    | list r => exact hcontainer (.list r) rfl
    | dict r => exact hcontainer (.dict r) rfl
    | record r => exact hcontainer (.record r) rfl
    | _ => rfl

/-- The shapes of several values. -/
def shapes (s : Store) (vs : List Value) : Shapes :=
  Value.unfoldAll s (s.containerShape s.shapeDepth) vs

/-- The shapes of the values of entries. -/
def namedShapes (s : Store) (es : List (String × Value)) : NamedShapes :=
  Value.unfoldEntries s (s.containerShape s.shapeDepth) es

namespace Acyclic

/-- A container with an end is written out no further at a greater depth. -/
theorem unfold_value {c : Container} (hc : s.Acyclic c.value) :
    c.value.unfold s (s.containerShape s.shapeDepth) =
      c.value.unfold s (s.containerShape (s.shapeDepth + 1)) := by
  have hdepth := s.others_nil_lt_shapeDepth
  exact hc.unfold_eq (fun d hd => absurd hd List.not_mem_nil) hdepth (by omega)

theorem shape_list {r : ListRef} (hr : s.Acyclic (.list r)) :
    s.shape (.list r) = .list r fun _ => s.shapes (s.listItems r).toList :=
  @unfold_value s (.list r) hr

theorem shape_dict {r : DictRef} (hr : s.Acyclic (.dict r)) :
    s.shape (.dict r) = .dict r fun _ => s.namedShapes (s.dictEntries r).entries :=
  @unfold_value s (.dict r) hr

theorem shape_record {r : RecordRef} (hr : s.Acyclic (.record r)) :
    s.shape (.record r) = .record r (s.typeOf r).name (s.typeOf r).format
      fun _ => s.shapes (s.getRecord r).slots :=
  @unfold_value s (.record r) hr

end Acyclic

end Store

end StagedScript

/-!
## Equality by parts

Two values without floats are equal if they are of one form and have equal parts in the same places.
From this equality is an equivalence: a step for the parts in each place, and induction over the
parts of a value.
-/

namespace StagedScript

/-- What a value is, its parts aside.  Tuples and records are of one form. -/
inductive Form where
  | none_
  | number (n : Int64)
  | float
  | text (t : String)
  | positional
  | list
  | dict
  | range (r : Range)
  | function (r : FunctionRef)
  | builtin (b : Builtin)
  | native (identity : Nat)
  | method (identity : Nat)
  | slot (index : Nat)
  | recordType (r : RecordTypeRef)

/-- A place for a part: by position, or under a name. -/
inductive Place where
  | item (i : Nat)
  | entry (name : String)

namespace Value

/-- What the value is, its parts aside. -/
def form : Value → Form
  | none_ => .none_
  | bool b => .number (if b then 1 else 0)
  | int n => .number n
  | float _ => .float
  | str _ text => .text text
  | tuple _ _ | record _ => .positional
  | list _ => .list
  | dict _ => .dict
  | range r => .range r
  | function r => .function r
  | builtin b => .builtin b
  | native i _ _ => .native i
  | method i _ => .method i
  | slot i => .slot i
  | recordType r => .recordType r

end Value

namespace Store

/-- The part of a value in a place.  The entries of a dict have names for places, whatever their
order. -/
def part? (s : Store) : Value → Place → Option Value
  | .dict r, .entry name => (s.dictEntries r).get? name
  | .dict _, .item _ => none
  | v, .item i => (s.parts v)[i]?
  | _, .entry _ => none

/-- A value that comes to an end and has no float in it. -/
structure Discrete (s : Store) (v : Value) : Prop where
  acyclic : s.Acyclic v
  noFloat : ∀ x, ¬ s.Contains v (.float x)

variable {s : Store} {a b c v w : Value}

theorem Discrete.part (hv : s.Discrete v) (hw : s.Part v w) : s.Discrete w :=
  ⟨hv.acyclic.part hw, fun x hx => hv.noFloat x (.head hw hx)⟩

/-- Values that are made of such values are such values. -/
theorem Discrete.of_parts (hv : v.form ≠ .float) (h : ∀ w, s.Part v w → s.Discrete w) :
    s.Discrete v := by
  refine ⟨.of_parts fun w hw => (h w hw).acyclic, fun x hx => ?_⟩
  rcases hx.cases_head with rfl | ⟨w, hw, hwx⟩
  · exact hv rfl
  · exact (h w hw).noFloat x hwx

theorem Discrete.form_ne (hv : s.Discrete v) : v.form ≠ .float := by
  cases v with
  | float x => exact absurd .refl (hv.noFloat x)
  | _ => exact Form.noConfusion

/-- A property of every such value, if a value has it as soon as its parts do. -/
theorem Discrete.induct {P : (v : Value) → s.Discrete v → Prop}
    (step : ∀ v hv, (∀ w (hw : s.Part v w), P w (Discrete.part hv hw)) → P v hv) (v : Value)
    (hv : s.Discrete v) : P v hv := by
  have h := hv.acyclic
  induction v, h using Acyclic.induct with
  | step v _ ih => exact step v hv fun w hw => ih w hw (hv.part hw)

theorem part_of_part? {p : Place} (h : s.part? v p = some w) : s.Part v w := by
  cases p with
  | item i => cases v <;> first | exact List.mem_of_getElem? h | cases h
  | entry name =>
    cases v with
    | dict r => exact List.mem_map.2 ⟨_, Table.mem_of_get? h, rfl⟩
    | _ => cases h

/-! ## Shapes by parts -/

/-- The shape of a value with an end, a step into it. -/
def outline (s : Store) : Value → Shape
  | .list r => .list r fun _ => s.shapes (s.listItems r).toList
  | .dict r => .dict r fun _ => s.namedShapes (s.dictEntries r).entries
  | .record r => .record r (s.typeOf r).name (s.typeOf r).format
      fun _ => s.shapes (s.getRecord r).slots
  | v => s.shape v

theorem Acyclic.shape_eq (hv : s.Acyclic v) : s.shape v = s.outline v := by
  cases v with
  | list r => exact hv.shape_list
  | dict r => exact hv.shape_dict
  | record r => exact hv.shape_record
  | _ => rfl

theorem size_shapes (s : Store) (xs : List Value) : (s.shapes xs).size = xs.length := by
  induction xs with
  | nil => rfl
  | cons x xs ih => exact congrArg Nat.succ ih

theorem size_namedShapes (s : Store) (es : List (String × Value)) :
    (s.namedShapes es).size = es.length := by
  induction es with
  | nil => rfl
  | cons e es ih => exact congrArg Nat.succ ih

theorem get?_namedShapes (s : Store) (es : List (String × Value)) (k : String) :
    (s.namedShapes es).get? k = (es.lookup k).map s.shape := by
  induction es with
  | nil => rfl
  | cons e es ih =>
    obtain ⟨j, v⟩ := e
    change (if j = k then some (s.shape v) else (s.namedShapes es).get? k) = _
    by_cases h : j = k
    · simp [h]
    · have hb : (k == j) = false := beq_eq_false_iff_ne.2 fun e => h e.symm
      rw [if_neg h, ih, List.lookup_cons, hb]

theorem equal_shapes {xs ys : List Value} :
    (s.shapes xs).equal (s.shapes ys) = some true ↔
    List.Forall₂ (s.equal · · = some true) xs ys := by
  induction xs generalizing ys with
  | nil =>
    cases ys with
    | nil => exact iff_of_true rfl .nil
    | cons y ys => exact iff_of_false nofun nofun
  | cons x xs ih =>
    cases ys with
    | nil => exact iff_of_false nofun nofun
    | cons y ys =>
      rw [List.forall₂_cons, ← ih]
      exact bothHold_eq_some_true

theorem among_namedShapes {es : List (String × Value)} {fs : NamedShapes} :
    (s.namedShapes es).among fs = some true ↔
      ∀ e ∈ es, ∃ w, fs.get? e.1 = some w ∧ (s.shape e.2).equal w = some true := by
  induction es with
  | nil => exact iff_of_true rfl nofun
  | cons e es ih =>
    rw [List.forall_mem_cons, ← ih]
    change (NamedShapes.cons e.1 (s.shape e.2) (s.namedShapes es)).among fs = some true ↔ _
    rw [NamedShapes.among, bothHold_eq_some_true]
    cases fs.get? e.1 <;> simp

end Store

namespace Value

/-! ## Values that are equal to themselves -/

/-- The value is no float, and in none of the tuples in it is one.  What containers hold does not
matter, for a container is equal to itself whatever it holds. -/
inductive FloatFree : Value → Prop
  | tuple {i : Nat} {items : List Value} : (∀ v ∈ items, FloatFree v) → FloatFree (.tuple i items)
  | other {v : Value} : (∀ x, v ≠ .float x) → (∀ i items, v ≠ .tuple i items) → FloatFree v

variable {s : Store} {v : Value}

theorem floatFree_of_forall (hv : ∀ x, ¬ s.Contains v (.float x)) : v.FloatFree := by
  induction hn : sizeOf v using Nat.strongRecOn generalizing v with
  | ind n ih =>
    cases v with
    | tuple i items =>
      refine .tuple fun w hw => ih _ ?_ (fun x hx => hv x (.head hw hx)) rfl
      have hlt := List.sizeOf_lt_of_mem hw
      rw [← hn, Value.tuple.sizeOf_spec]
      omega
    | float x => exact absurd .refl (hv x)
    | _ => exact .other nofun nofun

/-- However deep containers are written out, they are equal to themselves. -/
theorem equal_containerShape (s : Store) (depth : Nat) (c : Container) :
    (s.containerShape depth c).equal (s.containerShape depth c) = some true := by
  cases depth with
  | zero => simp [Store.containerShape, Shape.equal]
  | succ depth => cases c <;> simp [Store.containerShape, Shape.equal]

theorem equal_unfoldAll {inside : Container → Shape} {vs : List Value}
    (h : ∀ v ∈ vs, (v.unfold s inside).equal (v.unfold s inside) = some true) :
    (unfoldAll s inside vs).equal (unfoldAll s inside vs) = some true := by
  induction vs with
  | nil => rfl
  | cons v vs ih =>
    obtain ⟨hv, hvs⟩ := List.forall_mem_cons.1 h
    exact bothHold_eq_some_true.2 ⟨hv, ih hvs⟩

theorem FloatFree.equal_unfold (hv : v.FloatFree) (s : Store) (depth : Nat) :
    (v.unfold s (s.containerShape depth)).equal (v.unfold s (s.containerShape depth)) =
      some true := by
  induction hv with
  | tuple _ ih =>
    exact bothHold_eq_some_true.2 ⟨congrArg some (beq_self_eq_true _), equal_unfoldAll ih⟩
  | @other v hfloat htuple =>
    cases v with
    | float x => exact absurd rfl (hfloat x)
    | tuple i items => exact absurd rfl (htuple i items)
    | list r => exact equal_containerShape s depth (.list r)
    | dict r => exact equal_containerShape s depth (.dict r)
    | record r => exact equal_containerShape s depth (.record r)
    | bool b => cases b <;> rfl
    | _ => simp [unfold, Shape.equal, Number.ofShape?, Number.compare]

theorem FloatFree.equal_self (hv : v.FloatFree) : s.equal v v = some true := hv.equal_unfold s _

end Value

namespace Store

variable {s : Store} {a b c v w : Value}

/-! ## Equality -/

/-- Whether two values have related parts in the same places. -/
def Matched (s : Store) (R : Value → Value → Prop) (a b : Value) : Prop :=
  ∀ p, Option.Rel R (s.part? a p) (s.part? b p)

theorem forall₂_iff_getElem? {R : Value → Value → Prop} {xs ys : List Value} :
    List.Forall₂ R xs ys ↔ ∀ i : Nat, Option.Rel R xs[i]? ys[i]? := by
  induction xs generalizing ys with
  | nil =>
    cases ys with
    | nil => exact iff_of_true .nil fun _ => .none
    | cons y ys => exact iff_of_false nofun fun h => nomatch h 0
  | cons x xs ih =>
    cases ys with
    | nil => exact iff_of_false nofun fun h => nomatch h 0
    | cons y ys =>
      rw [List.forall₂_cons, ih]
      constructor
      · rintro ⟨h, hs⟩ (_ | i)
        · exact .some h
        · exact hs i
      · intro h
        refine ⟨?_, fun i => h (i + 1)⟩
        cases h 0 with
        | some h => exact h

/-- Values other than dicts have matching parts if the lists of their parts match. -/
theorem matched_iff_forall₂ {R : Value → Value → Prop} (ha : a.form ≠ .dict) (hb : b.form ≠ .dict) :
    s.Matched R a b ↔ List.Forall₂ R (s.parts a) (s.parts b) := by
  have hitem {v : Value} (hv : v.form ≠ .dict) (i : Nat) :
      s.part? v (.item i) = (s.parts v)[i]? := by
    cases v <;> first | rfl | exact absurd rfl hv
  have hentry {v : Value} (hv : v.form ≠ .dict) (k : String) : s.part? v (.entry k) = none := by
    cases v <;> first | rfl | exact absurd rfl hv
  rw [forall₂_iff_getElem?]
  constructor
  · intro h i
    rw [← hitem ha, ← hitem hb]
    exact h (.item i)
  · rintro h (i | k)
    · rw [hitem ha, hitem hb]
      exact h i
    · rw [hentry ha, hentry hb]
      exact .none

/-- Records that hold the same values are equal. -/
theorem equal_records {p q : RecordRef} (hslots : (s.getRecord q).slots = (s.getRecord p).slots)
    (hfloat : ∀ v ∈ (s.getRecord p).slots, v.FloatFree) :
    s.equal (.record q) (.record p) = some true := by
  obtain ⟨depth, hdepth⟩ : ∃ depth, s.shapeDepth = depth + 1 := by
    refine Nat.exists_eq_add_one.2 ?_
    unfold Store.shapeDepth
    exact Nat.mul_pos (Nat.succ_pos _) (Nat.succ_pos _)
  change (s.containerShape s.shapeDepth (.record q)).equal
    (s.containerShape s.shapeDepth (.record p)) = some true
  rw [hdepth]
  unfold Store.containerShape Shape.equal
  dsimp only
  rw [hslots, beq_self_eq_true,
    Value.equal_unfoldAll fun v hv => (hfloat v hv).equal_unfold s depth]
  exact ite_self _

theorem equal_self (hv : s.Discrete v) : s.equal v v = some true :=
  (Value.floatFree_of_forall hv.noFloat).equal_self

theorem equal_items {xs ys : List Value} :
    bothHold (some ((s.shapes xs).size == (s.shapes ys).size)) ((s.shapes xs).equal (s.shapes ys)) =
      some true ↔ List.Forall₂ (s.equal · · = some true) xs ys := by
  rw [bothHold_eq_some_true, equal_shapes, size_shapes, size_shapes, Option.some_inj, beq_iff_eq]
  exact and_iff_right_of_imp List.Forall₂.length_eq

/-- Two dicts of one size are compared by looking up the names of the first one in the second
one. -/
theorem equal_entries {t u : Table Value} :
    bothHold (some ((s.namedShapes t.entries).size == (s.namedShapes u.entries).size))
        ((s.namedShapes t.entries).among (s.namedShapes u.entries)) = some true ↔
      ∀ k, Option.Rel (s.equal · · = some true) (t.get? k) (u.get? k) := by
  rw [bothHold_eq_some_true, among_namedShapes, size_namedShapes, size_namedShapes,
    Option.some_inj, beq_iff_eq]
  constructor
  · rintro ⟨hsize, h⟩ k
    have hentry {k : String} {v : Value} (hv : t.get? k = some v) :
        ∃ w, u.get? k = some w ∧ s.equal v w = some true := by
      obtain ⟨x, hx, hvx⟩ := h _ (Table.mem_of_get? hv)
      rw [get?_namedShapes] at hx
      obtain ⟨w, hw, rfl⟩ := Option.map_eq_some_iff.1 hx
      exact ⟨w, hw, hvx⟩
    -- There are as many names on both sides, so that the second dict has no further ones.
    have hsub : t.keys ⊆ u.keys := by
      intro k hk
      obtain ⟨v, hv⟩ := Table.mem_keys_iff.1 hk
      obtain ⟨w, hw, -⟩ := hentry hv
      exact Table.mem_keys_iff.2 ⟨w, hw⟩
    have hperm : t.keys.Perm u.keys := by
      refine (List.subperm_of_subset t.nodup hsub).perm_of_length_le ?_
      simp only [Table.keys, Entries.keys, List.length_map, hsize, Nat.le_refl]
    cases hv : t.get? k with
    | some v =>
      obtain ⟨w, hw, hvw⟩ := hentry hv
      rw [hw]
      exact .some hvw
    | none =>
      have hk : u.get? k = none := by
        rw [Table.get?_eq_none_iff, ← hperm.mem_iff, ← Table.get?_eq_none_iff, hv]
      rw [hk]
      exact .none
  · intro h
    have hperm : t.keys.Perm u.keys := by
      refine (List.perm_ext_iff_of_nodup t.nodup u.nodup).2 fun k => ?_
      change k ∈ t.keys ↔ k ∈ u.keys
      rw [← Table.isSome_get?_iff, ← Table.isSome_get?_iff]
      have hrel := h k
      generalize t.get? k = x, u.get? k = y at hrel
      cases hrel <;> exact iff_of_eq rfl
    refine ⟨?_, fun e he => ?_⟩
    · simpa only [Table.keys, Entries.keys, List.length_map] using hperm.length_eq
    · have hrel := h e.1
      rw [Table.get?_of_mem he] at hrel
      generalize hw : u.get? e.1 = o at hrel
      cases hrel with
      | @some _ w hvw =>
        refine ⟨s.shape w, ?_, hvw⟩
        rw [get?_namedShapes]
        exact congrArg (Option.map s.shape) hw

/-- Two dicts have matching parts if each name stands for matching values in both or for none. -/
theorem matched_dict {R : Value → Value → Prop} {r q : DictRef} :
    s.Matched R (.dict r) (.dict q) ↔
      ∀ k, Option.Rel R ((s.dictEntries r).get? k) ((s.dictEntries q).get? k) :=
  ⟨fun h k => h (.entry k), fun h p => p.casesOn (fun _ => .none) h⟩

theorem matched_self (hv : s.Discrete v) : s.Matched (s.equal · · = some true) v v := by
  intro p
  cases h : s.part? v p with
  | none => exact .none
  | some w => exact .some (equal_self (hv.part (part_of_part? h)))

theorem matched_of_parts_nil {R : Value → Value → Prop} (ha : s.parts a = [])
    (hb : s.parts b = []) :
    s.Matched R a b := by
  have hnone {v : Value} (hv : s.parts v = []) (p : Place) : s.part? v p = none := by
    refine Option.eq_none_iff_forall_ne_some.2 fun w hw => ?_
    have hmem := part_of_part? hw
    rw [Part, hv] at hmem
    cases hmem
  intro p
  rw [hnone ha, hnone hb]
  exact .none

/-- The equality of two containers of one kind, which may be one and the same. -/
theorem shared_or_iff {same : Prop} [Decidable same] {e : Option Bool} (ha : s.Discrete a)
    (hsame : same → a = b) (he : e = some true ↔ s.Matched (s.equal · · = some true) a b) :
    (if same then some true else e) = some true ↔ s.Matched (s.equal · · = some true) a b := by
  split
  · next h => exact iff_of_true rfl (hsame h ▸ matched_self ha)
  · exact he

/-- Values are equal if they are of one form and have equal parts in the same places. -/
theorem equal_iff (ha : s.Discrete a) (hb : s.Discrete b) :
    s.equal a b = some true ↔ a.form = b.form ∧ s.Matched (s.equal · · = some true) a b := by
  have hatom {e : Option Bool} (ha' : s.parts a = []) (hb' : s.parts b = [])
      (he : e = some true ↔ a.form = b.form) :
      e = some true ↔ a.form = b.form ∧ s.Matched (s.equal · · = some true) a b :=
    he.trans (and_iff_left (matched_of_parts_nil ha' hb')).symm
  have hdiffer : some false ≠ some true := nofun
  have hitems (ha' : a.form ≠ .dict) (hb' : b.form ≠ .dict) :=
    equal_items.trans (@matched_iff_forall₂ s a b (s.equal · · = some true) ha' hb').symm
  unfold equal
  rw [ha.acyclic.shape_eq, hb.acyclic.shape_eq]
  -- What is left after the values of different forms are values of one form.
  cases a <;> cases b
  all_goals try exact iff_of_false hdiffer nofun
  all_goals first | exact absurd rfl ha.form_ne | exact absurd rfl hb.form_ne | skip
  case tuple.tuple | tuple.record | record.tuple =>
    exact (hitems Form.noConfusion Form.noConfusion).trans (and_iff_right rfl).symm
  case list.list | record.record =>
    refine Iff.trans ?_ (and_iff_right rfl).symm
    refine shared_or_iff ha ?_ (hitems Form.noConfusion Form.noConfusion)
    exact fun h => by rw [h]
  case dict.dict =>
    refine Iff.trans ?_ (and_iff_right rfl).symm
    refine shared_or_iff ha ?_ (equal_entries.trans matched_dict.symm)
    exact fun h => by rw [h]
  all_goals
    refine hatom rfl rfl ?_
    simp [outline, shape, Value.unfold, Shape.equal, Number.ofShape?, Number.compare, Value.form,
      Int64.toInt_inj]

/-! ## Laws -/

theorem Matched.symm {R R' : Value → Value → Prop} (h : s.Matched R a b)
    (hR : ∀ x y, s.Part a x → s.Part b y → R x y → R' y x) : s.Matched R' b a := by
  intro p
  have hp := h p
  generalize hx : s.part? a p = x, hy : s.part? b p = y at hp
  cases hp with
  | none => exact .none
  | some hxy => exact .some (hR _ _ (part_of_part? hx) (part_of_part? hy) hxy)

theorem Matched.trans {R R' : Value → Value → Prop} (hab : s.Matched R a b) (hbc : s.Matched R b c)
    (hR : ∀ x y z, s.Part a x → s.Part b y → s.Part c z → R x y → R y z → R' x z) :
    s.Matched R' a c := by
  intro p
  have hab := hab p
  have hbc := hbc p
  generalize hx : s.part? a p = x, hy : s.part? b p = y, hz : s.part? c p = z at hab hbc
  cases hab with
  | none => cases hbc; exact .none
  | some hxy =>
    cases hbc with
    | some hyz =>
      exact .some (hR _ _ _ (part_of_part? hx) (part_of_part? hy) (part_of_part? hz) hxy hyz)

theorem equal_symm (ha : s.Discrete a) (hb : s.Discrete b) (h : s.equal a b = some true) :
    s.equal b a = some true := by
  induction a, ha using Discrete.induct generalizing b with
  | step a ha ih =>
    obtain ⟨hform, hparts⟩ := (equal_iff ha hb).1 h
    refine (equal_iff hb ha).2 ⟨hform.symm, hparts.symm ?_⟩
    exact fun x y hx hy hxy => ih x hx (hb.part hy) hxy

theorem equal_trans (ha : s.Discrete a) (hb : s.Discrete b) (hc : s.Discrete c)
    (hab : s.equal a b = some true) (hbc : s.equal b c = some true) : s.equal a c = some true := by
  induction a, ha using Discrete.induct generalizing b c with
  | step a ha ih =>
    obtain ⟨hform, hparts⟩ := (equal_iff ha hb).1 hab
    obtain ⟨hform', hparts'⟩ := (equal_iff hb hc).1 hbc
    refine (equal_iff ha hc).2 ⟨hform.trans hform', hparts.trans hparts' ?_⟩
    exact fun x y z hx hy hz hxy hyz => ih x hx (hb.part hy) (hc.part hz) hxy hyz

/-- A store with two dicts of the same entries in different orders, and a record with the second
one. -/
def sampleDicts : Store :=
  { Store.empty with
    dicts := #[.ofList [("a", .int 1), ("b", .int 2)], .ofList [("b", .int 2), ("a", .bool true)]]
    records := #[⟨⟨0⟩, [.bool true, .dict ⟨1⟩]⟩] }

end Store

end StagedScript
