/-!
# Tables

A table maps names to values and keeps its entries in the order in which their names were first
given.  Giving a name a new value leaves the name in its place.
-/

namespace StagedScript

namespace Entries

variable {α : Type}

/-- The names of entries. -/
def keys (es : List (String × α)) : List String := es.map (·.1)

/-- The entries with a value for a name: in place of the one it has, or at the end. -/
def insert (k : String) (v : α) : List (String × α) → List (String × α)
  | [] => [(k, v)]
  | (k', v') :: es => if k' = k then (k, v) :: es else (k', v') :: insert k v es

theorem keys_insert (k : String) (v : α) (es : List (String × α)) :
    keys (insert k v es) = if k ∈ keys es then keys es else keys es ++ [k] := by
  induction es with
  | nil => simp [keys, insert]
  | cons e es ih =>
    obtain ⟨k', v'⟩ := e
    by_cases h : k' = k
    · subst h
      simp [keys, insert]
    · have hne : ¬ k = k' := fun e => h e.symm
      simp only [insert, h, if_false, keys, List.map_cons, List.mem_cons, hne, false_or]
      simp only [keys] at ih
      rw [ih]
      split <;> simp_all

theorem lookup_insert (k k' : String) (v : α) (es : List (String × α)) :
    (insert k v es).lookup k' = if k' = k then some v else es.lookup k' := by
  induction es with
  | nil =>
    by_cases h : k' = k
    · simp [insert, h]
    · have hb : (k' == k) = false := beq_eq_false_iff_ne.2 h
      simp [insert, List.lookup_cons, h, hb]
  | cons e es ih =>
    obtain ⟨j, w⟩ := e
    by_cases hj : j = k
    · subst hj
      by_cases h : k' = j
      · simp [insert, h]
      · have hb : (k' == j) = false := beq_eq_false_iff_ne.2 h
        simp [insert, List.lookup_cons, h, hb]
    · by_cases h : k' = j
      · subst h
        simp [insert, hj]
      · have hb : (k' == j) = false := beq_eq_false_iff_ne.2 h
        simp only [insert, hj, if_false, List.lookup_cons, hb]
        exact ih

theorem lookup_isSome_iff (k : String) (es : List (String × α)) :
    (es.lookup k).isSome ↔ k ∈ keys es := by
  induction es with
  | nil => simp [keys]
  | cons e es ih =>
    obtain ⟨j, w⟩ := e
    by_cases h : k = j
    · simp [keys, h]
    · have hb : (k == j) = false := beq_eq_false_iff_ne.2 h
      simp only [List.lookup_cons, hb]
      rw [ih]
      simp [keys, h]

theorem nodup_keys_insert {es : List (String × α)} (h : (keys es).Nodup) (k : String) (v : α) :
    (keys (insert k v es)).Nodup := by
  rw [keys_insert]
  split
  · exact h
  · next hk =>
    refine List.nodup_append.2 ⟨h, by simp, ?_⟩
    intro a ha b hb
    simp only [List.mem_singleton] at hb
    subst hb
    exact fun e => hk (e ▸ ha)

theorem keys_filter_sublist (p : String × α → Bool) (es : List (String × α)) :
    (keys (es.filter p)).Sublist (keys es) := List.Sublist.map _ List.filter_sublist

theorem keys_filterMap_sublist {β : Type} (f : α → Option β) (es : List (String × α)) :
    (keys (es.filterMap fun (k, v) => (f v).map (k, ·))).Sublist (keys es) := by
  induction es with
  | nil => simp [keys]
  | cons e es ih =>
    obtain ⟨k, v⟩ := e
    cases h : f v with
    | none => simpa [keys, h] using ih.cons k
    | some w => simpa [keys, h] using ih.cons_cons k

end Entries

/-- A finite map from names that keeps the order of its entries. -/
structure Table (α : Type) where
  /-- The entries, the oldest name first. -/
  entries : List (String × α)
  /-- No name has two entries. -/
  nodup : (Entries.keys entries).Nodup

namespace Table

variable {α β : Type}

/-- The table without entries. -/
def empty : Table α := ⟨[], by simp [Entries.keys]⟩

instance : Inhabited (Table α) := ⟨empty⟩

/-- The names, the oldest first. -/
def keys (t : Table α) : List String := Entries.keys t.entries

/-- The values, in the order of their names. -/
def values (t : Table α) : List α := t.entries.map (·.2)

/-- How many entries there are. -/
def size (t : Table α) : Nat := t.entries.length

/-- Whether there are no entries. -/
def isEmpty (t : Table α) : Bool := t.entries.isEmpty

/-- The value of a name. -/
def get? (t : Table α) (k : String) : Option α := t.entries.lookup k

/-- Whether a name has a value. -/
def contains (t : Table α) (k : String) : Bool := t.keys.contains k

/-- The table with a value for a name. -/
def insert (t : Table α) (k : String) (v : α) : Table α :=
  ⟨Entries.insert k v t.entries, Entries.nodup_keys_insert t.nodup k v⟩

/-- The table with the entries of a list, the later ones over the earlier ones. -/
def insertAll (t : Table α) (es : List (String × α)) : Table α :=
  es.foldl (fun t (k, v) => t.insert k v) t

/-- The table of the entries of a list. -/
def ofList (es : List (String × α)) : Table α := empty.insertAll es

/-- The table without a name. -/
def erase (t : Table α) (k : String) : Table α :=
  ⟨t.entries.filter (·.1 != k), t.nodup.sublist (Entries.keys_filter_sublist _ _)⟩

/-- The table of the entries that satisfy a test. -/
def filter (p : String → α → Bool) (t : Table α) : Table α :=
  ⟨t.entries.filter fun (k, v) => p k v, t.nodup.sublist (Entries.keys_filter_sublist _ _)⟩

/-- The table of the values that a partial function gives. -/
def filterMap (f : α → Option β) (t : Table α) : Table β :=
  ⟨t.entries.filterMap fun (k, v) => (f v).map (k, ·),
    t.nodup.sublist (Entries.keys_filterMap_sublist f _)⟩

/-- The table with every value changed. -/
def map (f : α → β) (t : Table α) : Table β :=
  ⟨t.entries.map fun (k, v) => (k, f v), by
    have h := t.nodup
    simpa [Entries.keys, Function.comp_def] using h⟩

@[simp] theorem keys_insert (t : Table α) (k : String) (v : α) :
    (t.insert k v).keys = if k ∈ t.keys then t.keys else t.keys ++ [k] :=
  Entries.keys_insert k v t.entries

@[simp] theorem get?_empty (k : String) : (empty : Table α).get? k = none := rfl

/-- A name has the value that it was given last; the other names keep theirs. -/
theorem get?_insert (t : Table α) (k k' : String) (v : α) :
    (t.insert k v).get? k' = if k' = k then some v else t.get? k' :=
  Entries.lookup_insert k k' v t.entries

theorem contains_iff {t : Table α} {k : String} : t.contains k = true ↔ k ∈ t.keys := by
  simp [contains]

/-- The names with a value are those of the entries. -/
theorem isSome_get?_iff {t : Table α} {k : String} : (t.get? k).isSome ↔ k ∈ t.keys :=
  Entries.lookup_isSome_iff k t.entries

theorem mem_keys_iff {t : Table α} {k : String} : k ∈ t.keys ↔ ∃ v, t.get? k = some v := by
  rw [← isSome_get?_iff, Option.isSome_iff_exists]

theorem get?_eq_none_iff {t : Table α} {k : String} : t.get? k = none ↔ k ∉ t.keys := by
  rw [← isSome_get?_iff, Option.not_isSome_iff_eq_none]

end Table

end StagedScript
