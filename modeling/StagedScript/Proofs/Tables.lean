import StagedScript.Proofs.Basic
import StagedScript.Table

/-!
# Looking up names in tables

What a table that is made from another one holds under a name, and what a namespace does in which a
name has been bound.
-/

namespace StagedScript

namespace Table

variable {α β : Type}

theorem get?_of_mem {t : Table α} {e : String × α} (he : e ∈ t.entries) :
    t.get? e.1 = some e.2 := by
  obtain ⟨es, hes⟩ := t
  unfold Table.get?
  dsimp only at he ⊢
  induction es with
  | nil => cases he
  | cons e' es ih =>
    obtain ⟨hnot, hrest⟩ := List.nodup_cons.1 hes
    rcases List.mem_cons.1 he with rfl | he
    · exact List.lookup_cons_self
    · have hne : (e.1 == e'.1) = false := by
        refine beq_eq_false_iff_ne.2 fun heq => hnot ?_
        exact List.mem_map.2 ⟨e, he, heq⟩
      rw [List.lookup_cons, hne]
      exact ih hrest he

theorem mem_of_get? {t : Table α} {k : String} {v : α} (h : t.get? k = some v) :
    (k, v) ∈ t.entries := by
  obtain ⟨es, hes⟩ := t
  unfold Table.get? at h
  dsimp only at h ⊢
  clear hes
  induction es with
  | nil => cases h
  | cons e es ih =>
    obtain ⟨k', w⟩ := e
    rw [List.lookup_cons] at h
    split at h
    · next heq =>
      obtain rfl := eq_of_beq heq
      cases h
      exact List.mem_cons_self
    · exact List.mem_cons_of_mem _ (ih h)

/-- A new name comes last. -/
theorem insert_entries (t : Table α) {k : String} (hk : k ∉ t.keys) (v : α) :
    (t.insert k v).entries = t.entries ++ [(k, v)] := by
  obtain ⟨es, hes⟩ := t
  unfold Table.keys at hk
  change Entries.insert k v es = es ++ [(k, v)]
  dsimp only at hk
  clear hes
  induction es with
  | nil => rfl
  | cons e es ih =>
    rw [Entries.keys, List.map_cons, List.mem_cons, not_or] at hk
    rw [Entries.insert, if_neg fun h => hk.1 h.symm, ih hk.2, List.cons_append]

theorem insertAll_entries (t : Table α) (es : List (String × α))
    (hes : (t.keys ++ es.map (·.1)).Nodup) : (t.insertAll es).entries = t.entries ++ es := by
  induction es generalizing t with
  | nil => exact (List.append_nil _).symm
  | cons e es ih =>
    obtain ⟨k, v⟩ := e
    have hk : k ∉ t.keys := by
      intro hk
      exact (List.nodup_append.1 hes).2.2 k hk k (by simp) rfl
    change ((t.insert k v).insertAll es).entries = _
    rw [ih, insert_entries t hk, List.append_assoc]
    · rfl
    · rw [Table.keys_insert, if_neg hk, List.append_assoc]
      exact hes

theorem entries_ofList {es : List (String × α)} (h : (Entries.keys es).Nodup) :
    (ofList es).entries = es := (insertAll_entries .empty es h).trans (List.nil_append es)

/-- The names of a table with further entries. -/
theorem mem_keys_insertAll {t : Table α} {es : List (String × α)} {k : String} :
    k ∈ (t.insertAll es).keys ↔ k ∈ t.keys ∨ k ∈ Entries.keys es := by
  induction es generalizing t with
  | nil => simp [insertAll, Entries.keys]
  | cons e es ih =>
    change k ∈ ((t.insert e.1 e.2).insertAll es).keys ↔ _
    have hcons : k ∈ Entries.keys (e :: es) ↔ k = e.1 ∨ k ∈ Entries.keys es := List.mem_cons
    rw [ih, keys_insert, hcons]
    split
    · next he =>
      constructor
      · exact Or.imp id .inr
      · rintro (h | rfl | h)
        · exact .inl h
        · exact .inl he
        · exact .inr h
    · rw [List.mem_append, List.mem_singleton, or_assoc]

/-- Entries for other names do not matter to a name. -/
theorem get?_insertAll {t : Table α} {es : List (String × α)} {k : String}
    (hk : k ∉ Entries.keys es) : (t.insertAll es).get? k = t.get? k := by
  induction es generalizing t with
  | nil => rfl
  | cons e es ih =>
    rw [Entries.keys, List.map_cons, List.mem_cons, not_or] at hk
    change ((t.insert e.1 e.2).insertAll es).get? k = _
    rw [ih hk.2, get?_insert, if_neg hk.1]

theorem ofList_entries (t : Table α) : Table.ofList t.entries = t := by
  have hentries := Table.insertAll_entries .empty t.entries t.nodup
  obtain ⟨es, hes⟩ := t
  cases hu : Table.ofList es
  rw [Table.ofList] at hu
  simp_all [empty]

theorem get?_map (g : α → β) (t : Table α) (k : String) :
    (t.map g).get? k = (t.get? k).map g := by
  obtain ⟨es, hes⟩ := t
  unfold Table.map Table.get?
  dsimp only
  clear hes
  induction es with
  | nil => rfl
  | cons e es ih =>
    obtain ⟨k', v⟩ := e
    by_cases hk : k = k'
    · simp [hk]
    · have hb : (k == k') = false := beq_eq_false_iff_ne.2 hk
      rw [List.map_cons, List.lookup_cons, List.lookup_cons, hb]
      exact ih

theorem get?_filter (p : String → Bool) (t : Table α) (k : String) :
    (t.filter fun name _ => p name).get? k = if p k then t.get? k else none := by
  obtain ⟨es, hes⟩ := t
  unfold Table.filter Table.get?
  dsimp only
  clear hes
  induction es with
  | nil => exact (ite_self none).symm
  | cons e es ih =>
    obtain ⟨k', v⟩ := e
    rw [List.filter_cons]
    by_cases hk : k = k'
    · subst hk
      by_cases hp : p k = true
      · simp [hp]
      · rw [if_neg hp] at ih ⊢
        rw [if_neg hp, ih]
    · have hb : (k == k') = false := beq_eq_false_iff_ne.2 hk
      rw [List.lookup_cons, hb]
      dsimp only
      split
      · rw [List.lookup_cons, hb]
        exact ih
      · exact ih

end Table

/-! ## Binding a name in a namespace -/

namespace Store

variable {s : Store} {r r' : NamespaceRef} (x : String) (v : Value)

theorem size_bind (s : Store) (r : NamespaceRef) :
    (s.bind r x v).namespaces.size = s.namespaces.size := by
  simp [bind, modifyBindings]

theorem bindings_bind (hr : r.index < s.namespaces.size) :
    (s.bind r x v).bindings r = (s.bindings r).insert x v := by
  simp only [bind, modifyBindings, bindings, Array.getElem?_modify, if_pos,
    Array.getElem?_eq_getElem hr, Option.map_some, Option.getD_some]

theorem bindings_bind_of_ne (hr : r' ≠ r) : (s.bind r x v).bindings r' = s.bindings r' := by
  have hne : r.index ≠ r'.index := by
    intro h
    cases r
    cases r'
    exact hr (congrArg _ h.symm)
  simp only [bind, modifyBindings, bindings, Array.getElem?_modify, if_neg hne]

/-- A name that has just been bound is found. -/
theorem get?_bindings_bind (hr : r.index < s.namespaces.size) :
    ((s.bind r x v).bindings r).get? x = some v := by
  rw [bindings_bind x v hr, Table.get?_insert, if_pos rfl]

end Store

end StagedScript
