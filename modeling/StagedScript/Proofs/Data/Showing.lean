import StagedScript.Proofs.Data.Basic
import StagedScript.Proofs.Showing.Reaching
import StagedScript.Shape.Order

/-!
# Showing and comparing plain data

A value that is plain data is shown by a text that tells all that it is made of, and two values that
are made of the same are equal.
-/

namespace StagedScript

namespace Datum

mutual

/-- The text of plain data. -/
def repr : Datum → String
  | none_ => "None"
  | bool b => if b then "True" else "False"
  | int n => toString n.toInt
  | text t => strLiteral t
  | tuple ds => Shape.tupleText (reprs ds)
  | list ds => "[" ++ Shape.commas (reprs ds) ++ "]"
  | dict es => "\x7b" ++ Shape.commas (entryReprs es) ++ "\x7d"

/-- The texts of several data. -/
def reprs : List Datum → List String
  | [] => []
  | d :: ds => d.repr :: reprs ds

/-- The texts of the entries of a dict. -/
def entryReprs : List (String × Datum) → List String
  | [] => []
  | (k, d) :: es => (strLiteral k ++ ": " ++ d.repr) :: entryReprs es

end

theorem reprs_eq (ds : List Datum) : reprs ds = ds.map repr := by
  induction ds with
  | nil => rfl
  | cons d ds ih => rw [reprs, ih, List.map_cons]

theorem entryReprs_eq (es : List (String × Datum)) :
    entryReprs es = es.map fun e => strLiteral e.1 ++ ": " ++ e.2.repr := by
  induction es with
  | nil => rfl
  | cons e es ih => rw [entryReprs, ih, List.map_cons]

end Datum

/-! ## Shapes as lists -/

/-- The shapes of a sequence as a list. -/
def Shapes.toList : Shapes → List Shape
  | .nil => []
  | .cons v vs => v :: vs.toList

/-- The shapes of entries with their names as a list. -/
def NamedShapes.toList : NamedShapes → List (String × Shape)
  | .nil => []
  | .cons k v es => (k, v) :: es.toList

section

variable {s : Store} {inside : Container → Shape}

theorem toList_unfoldAll (vs : List Value) :
    (Value.unfoldAll s inside vs).toList = vs.map fun v => v.unfold s inside := by
  induction vs with
  | nil => rfl
  | cons v vs ih => rw [Value.unfoldAll, Shapes.toList, ih, List.map_cons]

theorem toList_unfoldEntries (es : List (String × Value)) :
    (Value.unfoldEntries s inside es).toList = es.map fun e => (e.1, e.2.unfold s inside) := by
  induction es with
  | nil => rfl
  | cons e es ih => rw [Value.unfoldEntries, NamedShapes.toList, ih, List.map_cons]

end

/-- Sequences are equal if their items are. -/
theorem Shapes.equal_of_forall₂ {as bs : Shapes}
    (h : List.Forall₂ (fun a b => Shape.equal a b = some true) as.toList bs.toList) :
    as.size = bs.size ∧ as.equal bs = some true := by
  cases as with
  | nil =>
    cases bs with
    | nil => exact ⟨rfl, rfl⟩
    | cons b bs => cases h
  | cons a as =>
    cases bs with
    | nil => cases h
    | cons b bs =>
      cases h with
      | cons hab hrest =>
        obtain ⟨hsize, hequal⟩ := equal_of_forall₂ hrest
        exact ⟨congrArg (· + 1) hsize, by rw [Shapes.equal, hab, hequal]; rfl⟩

/-- The name of an entry is found if it has no other. -/
theorem NamedShapes.get?_of_mem {es : NamedShapes} (hnodup : (es.toList.map Prod.fst).Nodup)
    {e : String × Shape} (he : e ∈ es.toList) : es.get? e.1 = some e.2 := by
  cases es with
  | nil => cases he
  | cons k v es =>
    obtain ⟨hnew, hnodup⟩ := List.nodup_cons.1 hnodup
    unfold NamedShapes.get?
    rcases List.mem_cons.1 he with rfl | hmem
    · rw [if_pos rfl]
    · have hne : k ≠ e.1 := by
        rintro rfl
        exact hnew (List.mem_map.2 ⟨e, hmem, rfl⟩)
      rw [if_neg hne]
      exact get?_of_mem hnodup hmem

/-- Entries are among others if each of them is found there with an equal value. -/
theorem NamedShapes.among_of {es fs : NamedShapes}
    (h : ∀ e ∈ es.toList, ∃ w, fs.get? e.1 = some w ∧ e.2.equal w = some true) :
    es.among fs = some true := by
  cases es with
  | nil => rfl
  | cons k v es =>
    obtain ⟨w, hw, hequal⟩ := h (k, v) (by simp [toList])
    rw [NamedShapes.among, hw, bothHold_eq_some_true]
    exact ⟨hequal, among_of fun e he => h e (by simp [toList, he])⟩

theorem NamedShapes.size_eq (es : NamedShapes) : es.size = es.toList.length := by
  cases es with
  | nil => rfl
  | cons k v es => rw [size, size_eq es, toList, List.length_cons]

/-! ## Shapes of plain data -/

/-- The shape is all of the datum, with nothing left out. -/
inductive Shape.Shows : Shape → Datum → Prop
  | none_ : Shows .none_ .none_
  | bool (b : Bool) : Shows (.bool b) (.bool b)
  | int (n : Int64) : Shows (.int n) (.int n)
  | text (t : String) : Shows (.str t) (.text t)
  | tuple {items : Unit → Shapes} {ds : List Datum} :
      List.Forall₂ Shows (items ()).toList ds → Shows (.tuple items) (.tuple ds)
  | list (r : ListRef) {items : Unit → Shapes} {ds : List Datum} :
      List.Forall₂ Shows (items ()).toList ds → Shows (.list r items) (.list ds)
  | dict (r : DictRef) {entries : Unit → NamedShapes} {es : List (String × Datum)} :
      (es.map Prod.fst).Nodup → (entries ()).toList.map Prod.fst = es.map Prod.fst →
      List.Forall₂ Shows ((entries ()).toList.map Prod.snd) (es.map Prod.snd) →
      Shows (.dict r entries) (.dict es)

/-- Shapes of the same datum are equal. -/
theorem Shape.Shows.equal {a b : Shape} {d : Datum} (ha : a.Shows d) (hb : b.Shows d) :
    a.equal b = some true := by
  have hall {as bs : List Shape} {ds : List Datum}
      (ih : ∀ d ∈ ds, ∀ a b : Shape, a.Shows d → b.Shows d → a.equal b = some true)
      (has : List.Forall₂ Shows as ds) (hbs : List.Forall₂ Shows bs ds) :
      List.Forall₂ (fun a b => Shape.equal a b = some true) as bs := by
    induction has generalizing bs with
    | nil => cases hbs; exact .nil
    | cons ha _ ihs =>
      cases hbs with
      | cons hb hbs =>
        exact .cons (ih _ (by simp) _ _ ha hb) (ihs (fun d hd => ih d (by simp [hd])) hbs)
  induction d generalizing a b with
  | none_ => cases ha; cases hb; rfl
  | bool c => cases ha; cases hb; cases c <;> rfl
  | int n =>
    cases ha
    cases hb
    simp [Shape.equal, Number.ofShape?, Number.compare]
  | text t =>
    cases ha
    cases hb
    simp [Shape.equal]
  | tuple ds ih =>
    cases ha with
    | tuple has =>
    cases hb with
    | tuple hbs =>
      obtain ⟨hsize, hequal⟩ := Shapes.equal_of_forall₂ (hall (fun d hd _ _ => ih d hd) has hbs)
      simp [Shape.equal, hsize, hequal]
  | list ds ih =>
    cases ha with
    | list r has =>
    cases hb with
    | list q hbs =>
      obtain ⟨hsize, hequal⟩ := Shapes.equal_of_forall₂ (hall (fun d hd _ _ => ih d hd) has hbs)
      simp [Shape.equal, hsize, hequal]
  | dict es ih =>
    cases ha with
    | @dict r as _ hnodup has hvas =>
    cases hb with
    | @dict q bs _ _ hbs hvbs =>
      have hequal := hall (fun d hd _ _ => by
        obtain ⟨e, he, rfl⟩ := List.mem_map.1 hd
        exact ih e he) hvas hvbs
      have hfst : (as ()).toList.map Prod.fst = (bs ()).toList.map Prod.fst := has.trans hbs.symm
      have hsize : (as ()).size = (bs ()).size := by
        have hlength := congrArg List.length hfst
        rwa [List.length_map, List.length_map, ← NamedShapes.size_eq, ← NamedShapes.size_eq]
          at hlength
      have hamong : (as ()).among (bs ()) = some true := by
        refine NamedShapes.among_of fun e he => ?_
        -- The two have the same names in the same order, so the entries that match stand at the
        -- same place.
        obtain ⟨i, hi, rfl⟩ := List.mem_iff_getElem.1 he
        have hi' : i < (bs ()).toList.length := by
          rwa [← NamedShapes.size_eq, ← hsize, NamedShapes.size_eq]
        have hname : ((as ()).toList[i]).1 = ((bs ()).toList[i]).1 := by
          have hat := congrArg (·[i]?) hfst
          simpa [hi, hi'] using hat
        refine ⟨((bs ()).toList[i]).2, ?_, ?_⟩
        · rw [hname]
          exact NamedShapes.get?_of_mem (by rw [hbs]; exact hnodup) (List.getElem_mem hi')
        · have hat := hequal.get (i := i) (by simpa using hi) (by simpa using hi')
          simpa using hat
      simp [Shape.equal, hsize, hamong]

/-! ## Shapes of values -/

namespace Store

variable {s : Store} {v : Value} {d : Datum}

theorem Holds.mem_everyContainer {c : Container} (h : s.Holds c.value d) :
    c ∈ s.everyContainer := by
  cases c with
  | list r =>
    cases h with
    | list hr => simpa [everyContainer] using ⟨_, (Array.getElem?_eq_some_iff.1 hr).1, rfl⟩
  | dict r =>
    cases h with
    | dict hr => simpa [everyContainer] using ⟨_, (Array.getElem?_eq_some_iff.1 hr).1, rfl⟩
  | record r => cases h

/-- The containers hold plain data that is so large. -/
def Around (s : Store) (active : List Container) (n : Nat) : Prop :=
  ∀ c ∈ active, ∃ d, s.Holds c.value d ∧ n ≤ sizeOf d

theorem around_nil (n : Nat) : s.Around [] n := by simp [Around]

namespace Around

variable {active : List Container} {c : Container} {m n : Nat}

theorem mono (h : s.Around active n) (hle : m ≤ n) : s.Around active m := by
  intro c hc
  obtain ⟨d, hd, hn⟩ := h c hc
  exact ⟨d, hd, Nat.le_trans hle hn⟩

/-- Containers that hold more than a value are others than the value. -/
theorem not_mem (h : s.Around active (sizeOf d + 1)) (hc : s.Holds c.value d) : c ∉ active := by
  intro hmem
  obtain ⟨e, he, hlt⟩ := h c hmem
  rw [hc.unique he] at hlt
  exact Nat.lt_irrefl _ hlt

theorem cons (h : s.Around active (sizeOf d + 1)) (hc : s.Holds c.value d) :
    s.Around (c :: active) (sizeOf d) := by
  intro e he
  rcases List.mem_cons.1 he with rfl | he
  · exact ⟨d, hc, Nat.le_refl _⟩
  · exact h.mono (Nat.le_succ _) e he

end Around

theorem map_entries_eq {α β γ δ : Type} {xs : List (String × α)} {ys : List (String × β)}
    {f : α → γ} {g : β → γ} (join : String → γ → δ) (hfst : xs.map Prod.fst = ys.map Prod.fst)
    (hsnd : (xs.map Prod.snd).map f = (ys.map Prod.snd).map g) :
    (xs.map fun e => join e.1 (f e.2)) = ys.map fun e => join e.1 (g e.2) := by
  induction xs generalizing ys with
  | nil =>
    cases ys with
    | nil => rfl
    | cons y ys => cases hfst
  | cons x xs ih =>
    cases ys with
    | nil => cases hfst
    | cons y ys =>
      obtain ⟨hx, hxs⟩ := List.cons.inj hfst
      obtain ⟨hv, hvs⟩ := List.cons.inj hsnd
      rw [List.map_cons, List.map_cons, hx, hv, ih hxs hvs]

/-- The value is written out whole inside containers and is shown there by the text of the datum. -/
structure Shown (s : Store) (depth : Nat) (active : List Container) (v : Value) (d : Datum) :
    Prop where
  shows : (v.unfold s (s.containerShape depth)).Shows d
  repr : (v.unfold s (s.containerShape depth)).reprInside active = d.repr

section

variable {depth : Nat} {active : List Container}

theorem Shown.all {vs : List Value} {ds : List Datum}
    (h : List.Forall₂ (s.Shown depth active) vs ds) :
    List.Forall₂ Shape.Shows (vs.map fun v => v.unfold s (s.containerShape depth)) ds ∧
      (vs.map fun v => (v.unfold s (s.containerShape depth)).reprInside active) =
        ds.map Datum.repr := by
  induction h with
  | nil => exact ⟨.nil, rfl⟩
  | cons hd _ ih => exact ⟨.cons hd.shows ih.1, congrArg₂ List.cons hd.repr ih.2⟩

/-- Plain data is shown inside containers that hold more than it, at any depth that is past the
number of the others. -/
theorem Holds.shown (h : s.Holds v d) (haround : s.Around active (sizeOf d + 1))
    (hdepth : s.others active < depth) : s.Shown depth active v d := by
  -- What is inside a datum is smaller, so no container comes up inside itself; and each container
  -- that is entered is one of the others no more, so the depth is enough.
  induction d generalizing v depth active with
  | none_ => cases h; exact ⟨.none_, rfl⟩
  | bool b => cases h; cases b <;> exact ⟨.bool _, rfl⟩
  | int n => cases h; exact ⟨.int n, rfl⟩
  | text t => cases h; exact ⟨.text t, rfl⟩
  | tuple ds ih =>
    cases h with
    | tuple i hds =>
    have hitems (d : Datum) (hd : d ∈ ds) (v : Value) (hv : s.Holds v d) :
        s.Shown depth active v d := by
      have hlt := List.sizeOf_lt_of_mem hd
      rw [Datum.tuple.sizeOf_spec] at haround
      exact ih d hd hv (haround.mono (by omega)) hdepth
    obtain ⟨hshows, hreprs⟩ := Shown.all (forall₂_of_mem_right hds hitems)
    constructor
    · unfold Value.unfold
      refine .tuple ?_
      rwa [toList_unfoldAll]
    · unfold Value.unfold Shape.reprInside Datum.repr
      rw [reprsInside_unfoldAll, hreprs, Datum.reprs_eq]
  | list ds ih =>
    have hvalue : s.Holds v (.list ds) := h
    cases h with
    | @list r items _ hr hds =>
    have hother := haround.not_mem (c := .list r) hvalue
    have hlt := others_lt (Holds.mem_everyContainer (c := .list r) hvalue) hother
    obtain ⟨depth, rfl⟩ : ∃ n, depth = n + 1 := ⟨depth - 1, by omega⟩
    have hitems (d : Datum) (hd : d ∈ ds) (v : Value) (hv : s.Holds v d) :
        s.Shown depth (.list r :: active) v d := by
      have hsize := List.sizeOf_lt_of_mem hd
      have hin := haround.cons (c := .list r) hvalue
      rw [Datum.list.sizeOf_spec] at hin
      exact ih d hd hv (hin.mono (by omega)) (by omega)
    obtain ⟨hshows, hreprs⟩ := Shown.all (forall₂_of_mem_right hds hitems)
    have hlist : s.listItems r = items := by
      unfold listItems
      rw [hr]
      rfl
    constructor
    · unfold Value.unfold containerShape
      refine .list r ?_
      rwa [toList_unfoldAll, hlist]
    · unfold Value.unfold containerShape Shape.reprInside Datum.repr
      rw [if_neg hother, reprsInside_unfoldAll, hlist, hreprs, Datum.reprs_eq]
  | dict es ih =>
    have hvalue : s.Holds v (.dict es) := h
    cases h with
    | @dict r t _ hr hkeys hvalues =>
    have hother := haround.not_mem (c := .dict r) hvalue
    have hlt := others_lt (Holds.mem_everyContainer (c := .dict r) hvalue) hother
    obtain ⟨depth, rfl⟩ : ∃ n, depth = n + 1 := ⟨depth - 1, by omega⟩
    have hitems (d : Datum) (hd : d ∈ es.map Prod.snd) (v : Value) (hv : s.Holds v d) :
        s.Shown depth (.dict r :: active) v d := by
      obtain ⟨e, he, rfl⟩ := List.mem_map.1 hd
      have hsize := List.sizeOf_lt_of_mem he
      have hin := haround.cons (c := .dict r) hvalue
      rw [Datum.dict.sizeOf_spec] at hin
      rw [Prod.mk.sizeOf_spec] at hsize
      exact ih e he hv (hin.mono (by omega)) (by omega)
    obtain ⟨hshows, hreprs⟩ := Shown.all (forall₂_of_mem_right hvalues hitems)
    have hdict : s.dictEntries r = t := by
      unfold dictEntries
      rw [hr]
      rfl
    constructor
    · unfold Value.unfold containerShape
      refine .dict r (hkeys ▸ t.nodup) ?_ ?_
      · rw [toList_unfoldEntries, hdict, List.map_map]
        exact hkeys
      · rw [toList_unfoldEntries, hdict, List.map_map]
        rwa [Table.values, List.map_map] at hshows
    · unfold Value.unfold containerShape Shape.reprInside Datum.repr
      have hfst : t.entries.map Prod.fst = es.map Prod.fst := hkeys
      have hentries := map_entries_eq (fun k text => strLiteral k ++ ": " ++ text) hfst hreprs
      rw [if_neg hother, reprsInside_unfoldEntries, hdict, hentries, Datum.entryReprs_eq]

theorem others_nil_lt_shapeDepth (s : Store) : s.others [] < s.shapeDepth :=
  Nat.lt_of_le_of_lt (s.others_le []) s.containers_lt_shapeDepth

/-- Plain data is shown by its text. -/
theorem Holds.repr_eq (h : s.Holds v d) : s.repr v = d.repr :=
  (h.shown (around_nil _) s.others_nil_lt_shapeDepth).repr

/-- Values of the same plain data are equal. -/
theorem Holds.equal {w : Value} (hv : s.Holds v d) (hw : s.Holds w d) : s.equal v w = true :=
  (hv.shown (around_nil _) s.others_nil_lt_shapeDepth).shows.equal
    (hw.shown (around_nil _) s.others_nil_lt_shapeDepth).shows

end

end Store

end StagedScript
