import Mathlib.Data.List.Forall2
import StagedScript.Store.Basic

/-!
# Plain data

A value is plain data if it is made of `None`, truth values, integers, texts, tuples, lists and
dicts, and holds nothing that holds it.  What it is then is a tree, in which nothing is told about
where the value is kept.
-/

namespace StagedScript

/-- Of related lists the items stay related by what is known of those on the right. -/
theorem forall₂_of_mem_right {α β : Type} {R S : α → β → Prop} {as : List α} {bs : List β}
    (h : List.Forall₂ R as bs) (himp : ∀ b ∈ bs, ∀ a, R a b → S a b) : List.Forall₂ S as bs := by
  induction h with
  | nil => exact .nil
  | cons hab _ ih =>
    exact .cons (himp _ (by simp) _ hab) (ih fun b hb => himp b (List.mem_cons_of_mem _ hb))

theorem exists_mem_of_forall₂ {α β : Type} {R : α → β → Prop} {as : List α} {bs : List β}
    (h : List.Forall₂ R as bs) {a : α} (ha : a ∈ as) : ∃ b ∈ bs, R a b := by
  induction h with
  | nil => cases ha
  | cons hab _ ih =>
    rcases List.mem_cons.1 ha with rfl | ha
    · exact ⟨_, List.mem_cons_self, hab⟩
    · obtain ⟨b, hb, hR⟩ := ih ha
      exact ⟨b, List.mem_cons_of_mem _ hb, hR⟩

/-- Related lists have the same images if related items have. -/
theorem map_eq_map_of_forall₂ {α β γ : Type} {f : α → γ} {g : β → γ} {R : α → β → Prop}
    {as : List α} {bs : List β} (h : List.Forall₂ R as bs) (hR : ∀ a b, R a b → f a = g b) :
    as.map f = bs.map g := by
  induction h with
  | nil => rfl
  | cons hab _ ih => rw [List.map_cons, List.map_cons, hR _ _ hab, ih]

/-- It matters to related lists only how the items on the left are related. -/
theorem forall₂_congr_left {α β : Type} {R S : α → β → Prop} {as : List α} {bs : List β}
    (h : ∀ a ∈ as, ∀ b, R a b ↔ S a b) : List.Forall₂ R as bs ↔ List.Forall₂ S as bs := by
  induction as generalizing bs with
  | nil => rw [List.forall₂_nil_left_iff, List.forall₂_nil_left_iff]
  | cons a as ih =>
    obtain ⟨ha, has⟩ := List.forall_mem_cons.1 h
    cases bs with
    | nil => exact iff_of_false nofun nofun
    | cons b bs => rw [List.forall₂_cons, List.forall₂_cons, ha, ih has]

/-- A list can be related to another one if each of its items can be related. -/
theorem exists_forall₂_iff {α β : Type} {R : α → β → Prop} {as : List α} :
    (∃ bs, List.Forall₂ R as bs) ↔ ∀ a ∈ as, ∃ b, R a b := by
  induction as with
  | nil => exact iff_of_true ⟨[], .nil⟩ fun _ h => absurd h List.not_mem_nil
  | cons a as ih =>
    rw [List.forall_mem_cons, ← ih]
    constructor
    · rintro ⟨bs, h⟩
      cases h with
      | cons hab has => exact ⟨⟨_, hab⟩, _, has⟩
    · rintro ⟨⟨b, hab⟩, bs, has⟩
      exact ⟨b :: bs, .cons hab has⟩

/-- Plain data. -/
inductive Datum where
  | none_
  | bool (b : Bool)
  | int (n : Int64)
  | text (t : String)
  | tuple (items : List Datum)
  | list (items : List Datum)
  /-- A dict, with its entries in order. -/
  | dict (entries : List (String × Datum))

namespace Datum

/-- What holds of plain data if it holds of whatever is made of data that it holds of. -/
@[elab_as_elim, induction_eliminator]
theorem induct {P : Datum → Prop} (none_ : P none_) (bool : ∀ b, P (bool b)) (int : ∀ n, P (int n))
    (text : ∀ t, P (text t)) (tuple : ∀ items, (∀ d ∈ items, P d) → P (tuple items))
    (list : ∀ items, (∀ d ∈ items, P d) → P (list items))
    (dict : ∀ entries, (∀ e ∈ entries, P e.2) → P (dict entries)) (d : Datum) : P d := by
  -- Data nests through lists, so the induction is on its size.
  induction hn : sizeOf d using Nat.strongRecOn generalizing d with
  | ind n ih =>
    subst hn
    cases d with
    | none_ => exact none_
    | bool b => exact bool b
    | int n => exact int n
    | text t => exact text t
    | tuple items =>
      refine tuple items fun d hd => ih _ ?_ d rfl
      have hlt := List.sizeOf_lt_of_mem hd
      rw [Datum.tuple.sizeOf_spec]
      omega
    | list items =>
      refine list items fun d hd => ih _ ?_ d rfl
      have hlt := List.sizeOf_lt_of_mem hd
      rw [Datum.list.sizeOf_spec]
      omega
    | dict entries =>
      refine dict entries fun e he => ih _ ?_ e.2 rfl
      have hlt := List.sizeOf_lt_of_mem he
      rw [Prod.mk.sizeOf_spec] at hlt
      rw [Datum.dict.sizeOf_spec]
      omega

/-- The data can be written: it does not hold the least integer, for which there is no literal,
since what is written for it is the negation of a number that is no integer; and no name in a dict
has two entries. -/
inductive Writable : Datum → Prop
  | none_ : Writable none_
  | bool (b : Bool) : Writable (bool b)
  | int {n : Int64} : n ≠ Int64.minValue → Writable (int n)
  | text (t : String) : Writable (text t)
  | tuple {ds : List Datum} : (∀ d ∈ ds, d.Writable) → Writable (tuple ds)
  | list {ds : List Datum} : (∀ d ∈ ds, d.Writable) → Writable (list ds)
  | dict {es : List (String × Datum)} : (es.map Prod.fst).Nodup → (∀ e ∈ es, e.2.Writable) →
      Writable (dict es)

end Datum

namespace Store

/-- The value is made of what the datum is made of, and the least integer is not in it. -/
inductive Holds (s : Store) : Value → Datum → Prop
  | none_ : Holds s .none_ .none_
  | bool (b : Bool) : Holds s (.bool b) (.bool b)
  | int {n : Int64} : n ≠ Int64.minValue → Holds s (.int n) (.int n)
  | text (i : Nat) (t : String) : Holds s (.str i t) (.text t)
  | tuple (i : Nat) {items : List Value} {ds : List Datum} :
      List.Forall₂ (Holds s) items ds → Holds s (.tuple i items) (.tuple ds)
  | list {r : ListRef} {items : Array Value} {ds : List Datum} : s.lists[r.index]? = some items →
      List.Forall₂ (Holds s) items.toList ds → Holds s (.list r) (.list ds)
  | dict {r : DictRef} {t : Table Value} {es : List (String × Datum)} :
      s.dicts[r.index]? = some t → t.keys = es.map Prod.fst →
      List.Forall₂ (Holds s) t.values (es.map Prod.snd) → Holds s (.dict r) (.dict es)

variable {s s' : Store} {v : Value} {d d' : Datum}

/-- What a value is made of can be written. -/
theorem Holds.writable (h : s.Holds v d) : d.Writable := by
  have hall {vs : List Value} {ds : List Datum} (ih : ∀ d ∈ ds, ∀ v, s.Holds v d → d.Writable)
      (hvs : List.Forall₂ s.Holds vs ds) : ∀ d ∈ ds, d.Writable := by
    induction hvs with
    | nil => simp
    | cons hd _ ihs =>
      exact List.forall_mem_cons.2 ⟨ih _ (by simp) _ hd, ihs fun d hd => ih d (by simp [hd])⟩
  induction d generalizing v with
  | none_ => exact .none_
  | bool b => exact .bool b
  | int n =>
    cases h with
    | int hn => exact .int hn
  | text t => exact .text t
  | tuple ds ih =>
    cases h with
    | tuple i hds => exact .tuple (hall (fun d hd _ => ih d hd) hds)
  | list ds ih =>
    cases h with
    | list hr hds => exact .list (hall (fun d hd _ => ih d hd) hds)
  | dict es ih =>
    cases h with
    | @dict r t _ hr hkeys hvalues =>
      refine .dict (hkeys ▸ t.nodup) fun e he => ?_
      refine hall (fun d hd _ => ?_) hvalues e.2 (List.mem_map_of_mem he)
      obtain ⟨e, he, rfl⟩ := List.mem_map.1 hd
      exact ih e he

/-- What a value is made of does not depend on how one looks at it. -/
theorem Holds.unique (h : s.Holds v d) (h' : s.Holds v d') : d = d' := by
  -- Items and entries are compared one by one, as far as this holds of what they are made of.
  have hall {vs : List Value} {ds ds' : List Datum} (ih : ∀ d ∈ ds, ∀ v d', s.Holds v d →
      s.Holds v d' → d = d') (h : List.Forall₂ s.Holds vs ds) (h' : List.Forall₂ s.Holds vs ds') :
      ds = ds' := by
    induction h generalizing ds' with
    | nil => cases h'; rfl
    | cons hd _ ihs =>
      cases h' with
      | cons hd' hds' =>
        rw [ih _ (by simp) _ _ hd hd', ihs (fun d hd => ih d (by simp [hd])) hds']
  induction d generalizing v d' with
  | none_ => cases h; cases h'; rfl
  | bool b => cases h; cases h'; rfl
  | int n => cases h; cases h'; rfl
  | text t => cases h; cases h'; rfl
  | tuple ds ih =>
    cases h with
    | tuple i hds =>
      cases h' with
      | tuple _ hds' => rw [hall (fun d hd _ _ => ih d hd) hds hds']
  | list ds ih =>
    cases h with
    | list hr hds =>
      cases h' with
      | list hr' hds' =>
        obtain rfl := Option.some.inj (hr.symm.trans hr')
        rw [hall (fun d hd _ _ => ih d hd) hds hds']
  | dict es ih =>
    cases h with
    | dict hr hkeys hvalues =>
      cases h' with
      | @dict _ _ es' hr' hkeys' hvalues' =>
        obtain rfl := Option.some.inj (hr.symm.trans hr')
        -- Both have the names of the same table, and under each of them the same data.
        have hsnd := hall (fun d hd _ _ => by
          obtain ⟨e, he, rfl⟩ := List.mem_map.1 hd
          exact ih e he) hvalues hvalues'
        have hfst : es.map Prod.fst = es'.map Prod.fst := hkeys.symm.trans hkeys'
        have hzip (xs : List (String × Datum)) : xs = (xs.map Prod.fst).zip (xs.map Prod.snd) :=
          List.zip_of_prod rfl rfl
        rw [hzip es, hfst, hsnd, ← hzip es']

/-- What the one store keeps is kept by the other one as well. -/
structure Grows (s s' : Store) : Prop where
  lists : ∀ (i : Nat) (items : Array Value), s.lists[i]? = some items → s'.lists[i]? = some items
  dicts : ∀ (i : Nat) (t : Table Value), s.dicts[i]? = some t → s'.dicts[i]? = some t
  namespaces : s'.namespaces.size = s.namespaces.size

namespace Grows

variable {s'' : Store}

theorem refl (s : Store) : s.Grows s := ⟨fun _ _ h => h, fun _ _ h => h, rfl⟩

theorem trans (h : s.Grows s') (h' : s'.Grows s'') : s.Grows s'' where
  lists i items hi := h'.lists i items (h.lists i items hi)
  dicts i t hi := h'.dicts i t (h.dicts i t hi)
  namespaces := h'.namespaces.trans h.namespaces

theorem newIdentity (s : Store) : s.Grows s.newIdentity.2 := ⟨fun _ _ h => h, fun _ _ h => h, rfl⟩

theorem newList (s : Store) (items : Array Value) : s.Grows (s.newList items).2 where
  lists i xs hi := by
    change (s.lists.push items)[i]? = some xs
    rw [Array.getElem?_push, if_neg (Nat.ne_of_lt (Array.getElem?_eq_some_iff.1 hi).1), hi]
  dicts _ _ h := h
  namespaces := rfl

theorem newDict (s : Store) (t : Table Value) : s.Grows (s.newDict t).2 where
  lists _ _ h := h
  dicts i u hi := by
    change (s.dicts.push t)[i]? = some u
    rw [Array.getElem?_push, if_neg (Nat.ne_of_lt (Array.getElem?_eq_some_iff.1 hi).1), hi]
  namespaces := rfl

theorem bind (s : Store) (r : NamespaceRef) (x : String) (v : Value) : s.Grows (s.bind r x v) :=
  ⟨fun _ _ h => h, fun _ _ h => h, Array.size_modify⟩

/-- Plain data stays what it is. -/
theorem holds (h : s.Grows s') (hv : s.Holds v d) : s'.Holds v d := by
  induction d generalizing v with
  | none_ => cases hv; exact .none_
  | bool b => cases hv; exact .bool b
  | int n =>
    cases hv with
    | int hn => exact .int hn
  | text t => cases hv; exact .text _ t
  | tuple ds ih =>
    cases hv with
    | tuple i hds => exact .tuple i (forall₂_of_mem_right hds fun d hd _ => ih d hd)
  | list ds ih =>
    cases hv with
    | list hr hds =>
      exact .list (h.lists _ _ hr) (forall₂_of_mem_right hds fun d hd _ => ih d hd)
  | dict es ih =>
    cases hv with
    | dict hr hkeys hvalues =>
      refine .dict (h.dicts _ _ hr) hkeys (forall₂_of_mem_right hvalues fun d hd _ => ?_)
      obtain ⟨e, he, rfl⟩ := List.mem_map.1 hd
      exact ih e he

theorem holdsAll (h : s.Grows s') {vs : List Value} {ds : List Datum}
    (hvs : List.Forall₂ s.Holds vs ds) : List.Forall₂ s'.Holds vs ds :=
  hvs.imp fun _ _ => h.holds

end Grows

end Store

end StagedScript
