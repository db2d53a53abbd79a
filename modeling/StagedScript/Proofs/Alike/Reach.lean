import StagedScript.Proofs.Tables
import StagedScript.Run.Basic

/-!
# Out of reach

A run can get at the functions and namespaces that its values lead to, and at no others.  This file
says what it is for a value, and for all that a store holds, not to lead to some of them.
-/

namespace StagedScript

/-- The functions and the namespaces that are to be out of reach. -/
structure Hidden where
  /-- The functions. -/
  functions : FunctionRef → Prop
  /-- The namespaces. -/
  namespaces : NamespaceRef → Prop

/-- Nothing is out of reach. -/
def Hidden.nothing : Hidden := ⟨fun _ => False, fun _ => False⟩

variable (h : Hidden)

namespace Value

mutual

/-- The value holds no hidden function. -/
def Avoids : Value → Prop
  | tuple _ vs => AllAvoid vs
  | native _ _ held => HeldAvoid held
  | function r => ¬ h.functions r
  | none_ | bool _ | int _ | float _ | str _ _ | list _ | dict _ | range _ | builtin _ | method _ _
  | slot _ | recordType _ | record _ => True

/-- None of the values holds a hidden function. -/
def AllAvoid : List Value → Prop
  | [] => True
  | v :: vs => Avoids v ∧ AllAvoid vs

/-- None of the values with names holds a hidden function. -/
def HeldAvoid : List (String × Value) → Prop
  | [] => True
  | (_, v) :: es => Avoids v ∧ HeldAvoid es

end

variable {h}

theorem allAvoid_iff {vs : List Value} : AllAvoid h vs ↔ ∀ v ∈ vs, v.Avoids h := by
  induction vs with
  | nil => simp [AllAvoid]
  | cons v vs ih => simp [AllAvoid, ih]

theorem heldAvoid_iff {es : List (String × Value)} :
    HeldAvoid h es ↔ ∀ e ∈ es, e.2.Avoids h := by
  induction es with
  | nil => simp [HeldAvoid]
  | cons e es ih => obtain ⟨k, v⟩ := e; simp [HeldAvoid, ih]

@[simp] theorem avoids_tuple {i : Nat} {vs : List Value} :
    (tuple i vs).Avoids h ↔ ∀ v ∈ vs, v.Avoids h := by
  rw [Avoids, allAvoid_iff]

@[simp] theorem avoids_native {i : Nat} {kind : Native} {held : List (String × Value)} :
    (native i kind held).Avoids h ↔ ∀ e ∈ held, e.2.Avoids h := by
  rw [Avoids, heldAvoid_iff]

@[simp] theorem avoids_function {r : FunctionRef} :
    (function r).Avoids h ↔ ¬ h.functions r := Iff.rfl

@[simp] theorem avoids_none : none_.Avoids h := trivial
@[simp] theorem avoids_bool {b : Bool} : (bool b).Avoids h := trivial
@[simp] theorem avoids_int {n : Int64} : (int n).Avoids h := trivial
@[simp] theorem avoids_float {x : Binary64} : (float x).Avoids h := trivial
@[simp] theorem avoids_str {i : Nat} {t : String} : (str i t).Avoids h := trivial
@[simp] theorem avoids_list {r : ListRef} : (list r).Avoids h := trivial
@[simp] theorem avoids_dict {r : DictRef} : (dict r).Avoids h := trivial
@[simp] theorem avoids_range {r : Range} : (range r).Avoids h := trivial
@[simp] theorem avoids_builtin {b : Builtin} : (builtin b).Avoids h := trivial
@[simp] theorem avoids_method {i : Nat} {m : Method} : (method i m).Avoids h := trivial
@[simp] theorem avoids_slot {i : Nat} : (slot i).Avoids h := trivial
@[simp] theorem avoids_recordType {r : RecordTypeRef} : (recordType r).Avoids h := trivial
@[simp] theorem avoids_record {r : RecordRef} : (record r).Avoids h := trivial

mutual

theorem avoids_nothing : ∀ v : Value, v.Avoids Hidden.nothing
  | tuple _ vs => allAvoid_nothing vs
  | native _ _ held => heldAvoid_nothing held
  | function _ => id
  | none_ | bool _ | int _ | float _ | str _ _ | list _ | dict _ | range _ | builtin _ | method _ _
  | slot _ | recordType _ | record _ => trivial

theorem allAvoid_nothing : ∀ vs : List Value, AllAvoid Hidden.nothing vs
  | [] => trivial
  | v :: vs => ⟨avoids_nothing v, allAvoid_nothing vs⟩

theorem heldAvoid_nothing : ∀ es : List (String × Value), HeldAvoid Hidden.nothing es
  | [] => trivial
  | (_, v) :: es => ⟨avoids_nothing v, heldAvoid_nothing es⟩

end

end Value

variable {h}

/-- No value of the table holds a hidden function. -/
def Table.Avoids (h : Hidden) (t : Table Value) : Prop := ∀ e ∈ t.entries, e.2.Avoids h

namespace Table

@[simp] theorem avoids_empty : (Table.empty : Table Value).Avoids h := by simp [Table.Avoids, empty]

theorem mem_entries_insert {α : Type} {t : Table α} {k : String} {v : α} {e : String × α}
    (he : e ∈ (t.insert k v).entries) : e = (k, v) ∨ e ∈ t.entries := by
  suffices ∀ es : List (String × α), e ∈ Entries.insert k v es → e = (k, v) ∨ e ∈ es from
    this _ he
  intro es
  induction es with
  | nil => simp [Entries.insert]
  | cons e' es ih =>
    obtain ⟨k', v'⟩ := e'
    simp only [Entries.insert]
    split
    · intro hm
      rcases List.mem_cons.1 hm with rfl | hm
      · exact Or.inl rfl
      · exact Or.inr (List.mem_cons_of_mem _ hm)
    · intro hm
      rcases List.mem_cons.1 hm with rfl | hm
      · exact Or.inr (by simp)
      · exact (ih hm).imp id (List.mem_cons_of_mem _)

theorem mem_entries_insertAll {α : Type} {t : Table α} {es : List (String × α)} {e : String × α}
    (he : e ∈ (t.insertAll es).entries) : e ∈ es ∨ e ∈ t.entries := by
  induction es generalizing t with
  | nil => exact Or.inr he
  | cons e' es ih =>
    rcases ih he with hm | hm
    · exact Or.inl (List.mem_cons_of_mem _ hm)
    · rcases mem_entries_insert hm with rfl | hm
      · exact Or.inl (by simp)
      · exact Or.inr hm

theorem mem_entries_ofList {α : Type} {es : List (String × α)} {e : String × α}
    (he : e ∈ (ofList es).entries) : e ∈ es :=
  (mem_entries_insertAll he).resolve_right (by simp [empty])

theorem Avoids.insert {t : Table Value} (ht : t.Avoids h) {v : Value} (hv : v.Avoids h)
    (k : String) : (t.insert k v).Avoids h := by
  intro e he
  rcases mem_entries_insert he with rfl | he
  · exact hv
  · exact ht e he

theorem Avoids.insertAll {t : Table Value} (ht : t.Avoids h) {es : List (String × Value)}
    (hes : ∀ e ∈ es, e.2.Avoids h) : (t.insertAll es).Avoids h := by
  intro e he
  exact (mem_entries_insertAll he).elim (hes e) (ht e)

theorem Avoids.ofList {es : List (String × Value)} (hes : ∀ e ∈ es, e.2.Avoids h) :
    (Table.ofList es).Avoids h := fun e he => hes e (mem_entries_ofList he)

theorem Avoids.filter {t : Table Value} (ht : t.Avoids h) (p : String → Value → Bool) :
    (t.filter p).Avoids h := by
  intro e he
  exact ht e (List.mem_filter.1 he).1

theorem Avoids.get? {t : Table Value} (ht : t.Avoids h) {k : String} {v : Value}
    (hv : t.get? k = some v) : v.Avoids h := ht _ (mem_of_get? hv)

theorem Avoids.values {t : Table Value} (ht : t.Avoids h) : ∀ v ∈ t.values, v.Avoids h := by
  intro v hv
  obtain ⟨e, he, rfl⟩ := List.mem_map.1 hv
  exact ht e he

end Table

/-- The value that a parameter has for want of an argument holds no hidden function. -/
def Param.Avoids (h : Hidden) (p : Param Value) : Prop := ∀ v, p.default? = some v → v.Avoids h

/-- The function was not made where something is hidden, and holds nothing of it. -/
structure Function.Avoids (h : Hidden) (f : Function) : Prop where
  params : ∀ p ∈ f.params, p.Avoids h
  captured : f.captured.Avoids h
  globals : ¬ h.namespaces f.globals

/-- Nothing that the store holds leads to what is hidden, but for the hidden functions and
namespaces themselves. -/
structure Store.Avoids (h : Hidden) (s : Store) : Prop where
  lists : ∀ (i : Nat) (xs : Array Value), s.lists[i]? = some xs →
    ∀ v ∈ xs.toList, v.Avoids h
  dicts : ∀ (i : Nat) (t : Table Value), s.dicts[i]? = some t → t.Avoids h
  records : ∀ (i : Nat) (x : Record), s.records[i]? = some x → ∀ v ∈ x.slots, v.Avoids h
  recordTypes : ∀ (i : Nat) (t : RecordType), s.recordTypes[i]? = some t → t.attrs.Avoids h
  functions : ∀ r f, ¬ h.functions r → s.getFunction? r = some f → f.Avoids h
  namespaces : ∀ (i : Nat) (t : Table Value), ¬ h.namespaces ⟨i⟩ → s.namespaces[i]? = some t →
    t.Avoids h

/-- Where nothing is hidden, nothing leads to it. -/
theorem Store.avoids_nothing (s : Store) : s.Avoids Hidden.nothing where
  lists _ _ _ v _ := v.avoids_nothing
  dicts _ _ _ e _ := e.2.avoids_nothing
  records _ _ _ v _ := v.avoids_nothing
  recordTypes _ _ _ e _ := e.2.avoids_nothing
  functions _ _ _ _ := ⟨fun _ _ v _ => v.avoids_nothing, fun e _ => e.2.avoids_nothing, id⟩
  namespaces _ _ _ _ e _ := e.2.avoids_nothing

theorem getElem?_push_cases {α : Type} {xs : Array α} {x y : α} {i : Nat}
    (hy : (xs.push x)[i]? = some y) : y = x ∨ xs[i]? = some y := by
  rw [Array.getElem?_push] at hy
  split at hy
  · exact Or.inl (by simpa using hy.symm)
  · exact Or.inr hy

theorem getElem?_modify_cases {α : Type} {xs : Array α} {g : α → α} {i j : Nat} {y : α}
    (hy : (xs.modify i g)[j]? = some y) :
    (i = j ∧ ∃ x, xs[j]? = some x ∧ y = g x) ∨ xs[j]? = some y := by
  rw [Array.getElem?_modify] at hy
  split at hy
  · next hij =>
    obtain ⟨x, hx, rfl⟩ := Option.map_eq_some_iff.1 hy
    exact Or.inl ⟨hij, x, hx, rfl⟩
  · exact Or.inr hy

namespace Store.Avoids

variable {s : Store} (hs : s.Avoids h)
include hs

/-! ## What is read in a store -/

theorem listItems (r : ListRef) : ∀ v ∈ (s.listItems r).toList, v.Avoids h := by
  unfold Store.listItems
  cases hx : s.lists[r.index]? with
  | none => simp
  | some xs => exact hs.lists _ _ hx

theorem dictEntries (r : DictRef) : (s.dictEntries r).Avoids h := by
  unfold Store.dictEntries
  cases hx : s.dicts[r.index]? with
  | none => exact Table.avoids_empty
  | some t => exact hs.dicts _ _ hx

theorem slots (r : RecordRef) : ∀ v ∈ (s.getRecord r).slots, v.Avoids h := by
  unfold Store.getRecord
  cases hx : s.records[r.index]? with
  | none =>
    have : (default : Record).slots = [] := rfl
    simp [this]
  | some x => exact hs.records _ _ hx

theorem attrs (r : RecordTypeRef) : (s.getRecordType r).attrs.Avoids h := by
  unfold Store.getRecordType
  cases hx : s.recordTypes[r.index]? with
  | none => exact Table.avoids_empty
  | some t => exact hs.recordTypes _ _ hx

theorem bindings {r : NamespaceRef} (hr : ¬ h.namespaces r) : (s.bindings r).Avoids h := by
  unfold Store.bindings
  cases hx : s.namespaces[r.index]? with
  | none => exact Table.avoids_empty
  | some t => exact hs.namespaces _ _ hr hx

theorem sequenceItems? {v : Value} (hv : v.Avoids h) {vs : List Value}
    (hvs : s.sequenceItems? v = some vs) : ∀ w ∈ vs, w.Avoids h := by
  cases v <;> simp only [Store.sequenceItems?, reduceCtorEq, Option.some.injEq] at hvs
  case tuple i items => subst hvs; exact Value.avoids_tuple.1 hv
  case list r => subst hvs; exact hs.listItems r
  case record r => subst hvs; exact hs.slots r

/-! ## What is changed in a store -/

theorem newIdentity : (s.newIdentity).2.Avoids h :=
  ⟨hs.lists, hs.dicts, hs.records, hs.recordTypes, hs.functions, hs.namespaces⟩

theorem write (sink : Sink) (text : String) : (s.write sink text).Avoids h := by
  cases sink <;> exact ⟨hs.lists, hs.dicts, hs.records, hs.recordTypes, hs.functions, hs.namespaces⟩

theorem newList {xs : Array Value} (hxs : ∀ v ∈ xs.toList, v.Avoids h) :
    (s.newList xs).2.Avoids h where
  lists i ys hy := by
    rcases getElem?_push_cases hy with rfl | hy
    · exact hxs
    · exact hs.lists i ys hy
  dicts := hs.dicts
  records := hs.records
  recordTypes := hs.recordTypes
  functions := hs.functions
  namespaces := hs.namespaces

theorem newDict {t : Table Value} (ht : t.Avoids h) : (s.newDict t).2.Avoids h where
  lists := hs.lists
  dicts i u hu := by
    rcases getElem?_push_cases hu with rfl | hu
    · exact ht
    · exact hs.dicts i u hu
  records := hs.records
  recordTypes := hs.recordTypes
  functions := hs.functions
  namespaces := hs.namespaces

theorem newRecord {x : Record} (hx : ∀ v ∈ x.slots, v.Avoids h) : (s.newRecord x).2.Avoids h where
  lists := hs.lists
  dicts := hs.dicts
  records i y hy := by
    rcases getElem?_push_cases hy with rfl | hy
    · exact hx
    · exact hs.records i y hy
  recordTypes := hs.recordTypes
  functions := hs.functions
  namespaces := hs.namespaces

theorem newRecordType {t : RecordType} (ht : t.attrs.Avoids h) :
    (s.newRecordType t).2.Avoids h where
  lists := hs.lists
  dicts := hs.dicts
  records := hs.records
  recordTypes i u hu := by
    rcases getElem?_push_cases hu with rfl | hu
    · exact ht
    · exact hs.recordTypes i u hu
  functions := hs.functions
  namespaces := hs.namespaces

theorem newFunction {f : Function} (hf : f.Avoids h) : (s.newFunction f).2.Avoids h where
  lists := hs.lists
  dicts := hs.dicts
  records := hs.records
  recordTypes := hs.recordTypes
  functions r g hr hg := by
    rcases getElem?_push_cases hg with rfl | hg
    · exact hf
    · exact hs.functions r g hr hg
  namespaces := hs.namespaces

theorem newNamespace {t : Table Value} (ht : t.Avoids h) : (s.newNamespace t).2.Avoids h where
  lists := hs.lists
  dicts := hs.dicts
  records := hs.records
  recordTypes := hs.recordTypes
  functions := hs.functions
  namespaces i u hi hu := by
    rcases getElem?_push_cases hu with rfl | hu
    · exact ht
    · exact hs.namespaces i u hi hu

theorem modifyList (r : ListRef) {g : Array Value → Array Value}
    (hg : ∀ xs, (∀ v ∈ xs.toList, v.Avoids h) → ∀ v ∈ (g xs).toList, v.Avoids h) :
    (s.modifyList r g).Avoids h where
  lists i ys hy := by
    rcases getElem?_modify_cases hy with ⟨-, xs, hxs, rfl⟩ | hy
    · exact hg xs (hs.lists i xs hxs)
    · exact hs.lists i ys hy
  dicts := hs.dicts
  records := hs.records
  recordTypes := hs.recordTypes
  functions := hs.functions
  namespaces := hs.namespaces

theorem modifyDict (r : DictRef) {g : Table Value → Table Value}
    (hg : ∀ t, t.Avoids h → (g t).Avoids h) : (s.modifyDict r g).Avoids h where
  lists := hs.lists
  dicts i u hu := by
    rcases getElem?_modify_cases hu with ⟨-, t, ht, rfl⟩ | hu
    · exact hg t (hs.dicts i t ht)
    · exact hs.dicts i u hu
  records := hs.records
  recordTypes := hs.recordTypes
  functions := hs.functions
  namespaces := hs.namespaces

theorem modifySlots (r : RecordRef) {g : List Value → List Value}
    (hg : ∀ vs, (∀ v ∈ vs, v.Avoids h) → ∀ v ∈ g vs, v.Avoids h) :
    (s.modifySlots r g).Avoids h where
  lists := hs.lists
  dicts := hs.dicts
  records i y hy := by
    rcases getElem?_modify_cases hy with ⟨-, x, hx, rfl⟩ | hy
    · exact hg x.slots (hs.records i x hx)
    · exact hs.records i y hy
  recordTypes := hs.recordTypes
  functions := hs.functions
  namespaces := hs.namespaces

theorem bind {r : NamespaceRef} {v : Value} (hv : ¬ h.namespaces r → v.Avoids h) (k : String) :
    (s.bind r k v).Avoids h where
  lists := hs.lists
  dicts := hs.dicts
  records := hs.records
  recordTypes := hs.recordTypes
  functions := hs.functions
  namespaces i u hi hu := by
    rcases getElem?_modify_cases hu with ⟨hri, t, ht, rfl⟩ | hu
    · subst hri
      exact (hs.namespaces _ t hi ht).insert (hv hi) k
    · exact hs.namespaces i u hi hu

end Store.Avoids

end StagedScript
