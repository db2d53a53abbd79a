import StagedScript.Proofs.Basic
import StagedScript.Shape.Text

/-!
# The text of a value wherever it stands

A value is shown alike wherever it stands and however deep it is written out, as long as it holds
none of the containers around it and the depth is past the number of containers that are not around
it.
-/

namespace StagedScript

/-- A container as a value. -/
def Container.value : Container → Value
  | list r => .list r
  | dict r => .dict r
  | record r => .record r

namespace Store

/-- What a container holds. -/
def held (s : Store) : Container → List Value
  | .list r => (s.listItems r).toList
  | .dict r => (s.dictEntries r).values
  | .record r => (s.getRecord r).slots

/-- The container is part of the value, or of what a container in it holds. -/
inductive Reaches (s : Store) : Value → Container → Prop
  | here (c : Container) : Reaches s c.value c
  | item {i : Nat} {items : List Value} {v : Value} {c : Container} :
      v ∈ items → Reaches s v c → Reaches s (.tuple i items) c
  | inside {c d : Container} {v : Value} : v ∈ s.held c → Reaches s v d → Reaches s c.value d

theorem Reaches.trans {s : Store} {v w : Value} {c d : Container} (h : s.Reaches v c)
    (hw : w ∈ s.held c) (hd : s.Reaches w d) : s.Reaches v d := by
  induction h with
  | here c => exact .inside hw hd
  | item hv _ ih => exact .item hv (ih hw)
  | inside hv _ ih => exact .inside hv (ih hw)

/-- Only containers and tuples hold anything. -/
theorem Reaches.holder {s : Store} {v : Value} {c : Container} (h : s.Reaches v c) :
    (∃ d : Container, v = d.value) ∨ ∃ i items, v = .tuple i items := by
  cases h with
  | here => exact .inl ⟨c, rfl⟩
  | item => exact .inr ⟨_, _, rfl⟩
  | inside => exact .inl ⟨_, rfl⟩

/-! ## How many containers are not around -/

/-- Every container of the store. -/
def everyContainer (s : Store) : List Container :=
  (List.range s.lists.size).map (fun i => .list ⟨i⟩)
    ++ (List.range s.dicts.size).map (fun i => .dict ⟨i⟩)
    ++ (List.range s.records.size).map (fun i => .record ⟨i⟩)

theorem length_everyContainer (s : Store) : s.everyContainer.length = s.containers := by
  simp [everyContainer, containers, Nat.add_assoc]

/-- How many containers of the store are not among some. -/
def others (s : Store) (active : List Container) : Nat :=
  s.everyContainer.countP fun c => decide (c ∉ active)

theorem others_lt {s : Store} {active : List Container} {c : Container} (hc : c ∈ s.everyContainer)
    (hactive : c ∉ active) : s.others (c :: active) < s.others active := by
  obtain ⟨before, after, hevery⟩ := List.append_of_mem hc
  have hle (cs : List Container) : cs.countP (fun d => decide (d ∉ c :: active)) ≤
      cs.countP fun d => decide (d ∉ active) := by
    refine List.countP_mono_left fun d _ hd => ?_
    simp only [decide_eq_true_eq, List.mem_cons, not_or] at hd ⊢
    exact hd.2
  have hbefore := hle before
  have hafter := hle after
  unfold others
  rw [hevery, List.countP_append, List.countP_append, List.countP_cons, List.countP_cons,
    if_neg (by simp), if_pos (by simpa using hactive)]
  omega

theorem others_le (s : Store) (active : List Container) : s.others active ≤ s.containers := by
  rw [← length_everyContainer]
  exact List.countP_le_length

theorem containers_lt_shapeDepth (s : Store) : s.containers < s.shapeDepth := by
  have hlt : s.containers < s.holders + 1 := by
    unfold holders
    omega
  exact Nat.lt_of_lt_of_le hlt (Nat.le_mul_of_pos_left _ (Nat.succ_pos _))

/-- What is not in the store holds nothing. -/
theorem held_eq_nil {s : Store} {c : Container} (hc : c ∉ s.everyContainer) : s.held c = [] := by
  have hnone {α : Type} {xs : Array α} {i : Nat} (hi : ¬ i < xs.size) : xs[i]? = none :=
    Array.getElem?_eq_none (Nat.le_of_not_lt hi)
  cases c with
  | list r =>
    have hr : ¬ r.index < s.lists.size := fun h => hc (by simpa [everyContainer] using ⟨_, h, rfl⟩)
    simp [held, listItems, hnone hr]
  | dict r =>
    have hr : ¬ r.index < s.dicts.size := fun h => hc (by simpa [everyContainer] using ⟨_, h, rfl⟩)
    simp [held, dictEntries, hnone hr, Table.values, Table.empty]
  | record r =>
    have hr : ¬ r.index < s.records.size :=
      fun h => hc (by simpa [everyContainer] using ⟨_, h, rfl⟩)
    simp only [held, getRecord, hnone hr]
    rfl

theorem mem_everyContainer_of_mem_held {s : Store} {c : Container} {v : Value} (hv : v ∈ s.held c) :
    c ∈ s.everyContainer := by
  by_contra hc
  rw [held_eq_nil hc] at hv
  cases hv

end Store

/-! ## Texts -/

namespace Shape

/-- What is told about a value that stands inside containers. -/
def shown (active : List Container) (v : Shape) : Percent.Argument :=
  v.argument fun _ => v.reprInside active

theorem shown_repr (active : List Container) (v : Shape) :
    (v.shown active).repr () = v.reprInside active := rfl

end Shape

section

variable {s : Store} {inside inside' : Container → Shape} {active active' : List Container}

theorem argumentsInside_unfoldAll (vs : List Value) :
    (Value.unfoldAll s inside vs).argumentsInside active =
      vs.map fun v => (v.unfold s inside).shown active := by
  induction vs with
  | nil => rfl
  | cons v vs ih => rw [Value.unfoldAll, Shapes.argumentsInside, ih]; rfl

theorem reprsInside_unfoldAll (vs : List Value) :
    (Value.unfoldAll s inside vs).reprsInside active =
      vs.map fun v => (v.unfold s inside).reprInside active := by
  induction vs with
  | nil => rfl
  | cons v vs ih => rw [Value.unfoldAll, Shapes.reprsInside, ih]; rfl

theorem reprsInside_unfoldEntries (es : List (String × Value)) :
    (Value.unfoldEntries s inside es).reprsInside active =
      es.map fun e => strLiteral e.1 ++ ": " ++ (e.2.unfold s inside).reprInside active := by
  induction es with
  | nil => rfl
  | cons e es ih => rw [Value.unfoldEntries, NamedShapes.reprsInside, ih]; rfl

theorem reprInside_congr {a b : Shape} (h : a.shown active = b.shown active') :
    a.reprInside active = b.reprInside active' := by
  rw [← Shape.shown_repr, h, Shape.shown_repr]

/-- A value is shown alike if the containers in it are. -/
theorem shown_unfold (v : Value)
    (h : ∀ c, s.Reaches v c → (inside c).shown active = (inside' c).shown active') :
    (v.unfold s inside).shown active = (v.unfold s inside').shown active' := by
  induction hn : sizeOf v using Nat.strongRecOn generalizing v with
  | ind n ih =>
    cases v with
    | tuple i items =>
      have hitems : (items.map fun v => (v.unfold s inside).reprInside active) =
          items.map fun v => (v.unfold s inside').reprInside active' := by
        refine List.map_congr_left fun v hv => reprInside_congr ?_
        have hsize := List.sizeOf_lt_of_mem hv
        exact ih _ (by rw [← hn, Value.tuple.sizeOf_spec]; omega) v
          (fun c hc => h c (.item hv hc)) rfl
      unfold Value.unfold Shape.shown Shape.argument Shape.reprInside
      rw [reprsInside_unfoldAll, reprsInside_unfoldAll, hitems]
      rfl
    | list r => exact h _ (.here (.list r))
    | dict r => exact h _ (.here (.dict r))
    | record r => exact h _ (.here (.record r))
    | bool b => cases b <;> rfl
    | _ => rfl

theorem mem_values {t : Table Value} {e : String × Value} (he : e ∈ t.entries) : e.2 ∈ t.values :=
  List.mem_map.2 ⟨e, he, rfl⟩

/-- The shape of a container is written out to some depth. -/
theorem Store.exists_shape_container (s : Store) : ∃ depth, s.shapeDepth = depth + 1 ∧
    ∀ c : Container, s.shape c.value = s.containerShape (depth + 1) c := by
  obtain ⟨depth, hdepth⟩ : ∃ n, s.shapeDepth = n + 1 :=
    Nat.exists_eq_add_one.2 (Nat.zero_lt_of_lt s.containers_lt_shapeDepth)
  refine ⟨depth, hdepth, ?_⟩
  intro c
  cases c <;> rw [Store.shape, hdepth] <;> rfl

/-- The text of a container that is not cut short, from what is told about what it holds. -/
def Store.containerText (s : Store) (told : Value → Percent.Argument) : Container → String
  | .list r => "[" ++ Shape.commas ((s.listItems r).toList.map fun v => (told v).repr ()) ++ "]"
  | .dict r =>
    "\x7b" ++ Shape.commas ((s.dictEntries r).entries.map fun e =>
      strLiteral e.1 ++ ": " ++ (told e.2).repr ()) ++ "\x7d"
  | .record r =>
      Shape.recordText (s.typeOf r).name (s.typeOf r).format ((s.getRecord r).slots.map told)

theorem containerText_congr {told told' : Value → Percent.Argument} {c : Container}
    (h : ∀ v ∈ s.held c, told v = told' v) : s.containerText told c = s.containerText told' c := by
  cases c with
  | list r =>
    refine congrArg (fun texts => "[" ++ Shape.commas texts ++ "]") (List.map_congr_left ?_)
    intro v hv
    rw [h v hv]
  | dict r =>
    refine congrArg (fun texts => "\x7b" ++ Shape.commas texts ++ "\x7d") (List.map_congr_left ?_)
    intro e he
    rw [h e.2 (mem_values he)]
  | record r => exact congrArg (Shape.recordText _ _) (List.map_congr_left h)

/-- A container is cut short inside itself, and else is made of what it holds as that is shown
inside it. -/
theorem reprInside_containerShape (d : Nat) (c : Container) (active : List Container) :
    (s.containerShape (d + 1) c).reprInside active =
      if c ∈ active then Shape.cutText (s.containerType c) c
      else s.containerText (fun v => (v.unfold s (s.containerShape d)).shown (c :: active)) c := by
  cases c with
  | list r =>
    change (Shape.list r fun _ =>
      Value.unfoldAll s (s.containerShape d) (s.listItems r).toList).reprInside active = _
    unfold Shape.reprInside
    rw [reprsInside_unfoldAll]
    rfl
  | dict r =>
    change (Shape.dict r fun _ =>
      Value.unfoldEntries s (s.containerShape d) (s.dictEntries r).entries).reprInside active = _
    unfold Shape.reprInside
    rw [reprsInside_unfoldEntries]
    rfl
  | record r =>
    change (Shape.record r _ _ fun _ =>
      Value.unfoldAll s (s.containerShape d) (s.getRecord r).slots).reprInside active = _
    unfold Shape.reprInside
    rw [argumentsInside_unfoldAll]
    rfl

/-- Of a container nothing but its text is told. -/
theorem shown_of_reprInside {c : Container} {d d' : Nat}
    (h : (s.containerShape (d + 1) c).reprInside active =
      (s.containerShape (d' + 1) c).reprInside active') :
    (s.containerShape (d + 1) c).shown active = (s.containerShape (d' + 1) c).shown active' := by
  cases c <;>
  · unfold Shape.shown Shape.argument
    rw [h]
    rfl

/-- A container is shown alike if what it holds is. -/
theorem shown_containerShape {c : Container} {d d' : Nat} (hactive : c ∈ active ↔ c ∈ active')
    (h : c ∉ active → ∀ v ∈ s.held c, (v.unfold s (s.containerShape d)).shown (c :: active) =
      (v.unfold s (s.containerShape d')).shown (c :: active')) :
    (s.containerShape (d + 1) c).shown active = (s.containerShape (d' + 1) c).shown active' := by
  refine shown_of_reprInside ?_
  rw [reprInside_containerShape, reprInside_containerShape]
  by_cases hc : c ∈ active
  · rw [if_pos hc, if_pos (hactive.1 hc)]
  · rw [if_neg hc, if_neg (mt hactive.2 hc), containerText_congr (h hc)]

/-- A value is shown alike inside any containers that it does not hold, at any depth that is past
the number of the others. -/
theorem shown_eq {d d' : Nat} {v : Value} (hd : s.others active < d) (hd' : s.others active' < d')
    (h : ∀ c, s.Reaches v c → (c ∈ active ↔ c ∈ active')) :
    (v.unfold s (s.containerShape d)).shown active =
      (v.unfold s (s.containerShape d')).shown active' := by
  -- Every container on the way down is one less that is not around, and takes one of the depth.
  induction d generalizing d' active active' v with
  | zero => omega
  | succ d ih =>
    obtain ⟨d', rfl⟩ : ∃ n, d' = n + 1 := ⟨d' - 1, by omega⟩
    refine shown_unfold v fun c hc => shown_containerShape (h c hc) fun hnew w hw => ?_
    have hevery := Store.mem_everyContainer_of_mem_held hw
    have hlt := Store.others_lt hevery hnew
    have hlt' := Store.others_lt hevery fun hnew' => hnew ((h c hc).2 hnew')
    refine ih (by omega) (by omega) fun e he => ?_
    rw [List.mem_cons, List.mem_cons, h e (hc.trans hw he)]

end

end StagedScript
