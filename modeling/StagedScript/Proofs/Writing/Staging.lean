import Mathlib.Data.List.Nodup
import Mathlib.Data.List.Range
import Mathlib.Data.List.Perm.Subperm
import StagedScript.Emit.Code
import StagedScript.Proofs.Alike.Values
import StagedScript.Proofs.Tables

/-!
# Staged values

A value is staged under the name that is asked for, or under the first name with a number behind it
that is free.  The numbers go on from the last one that was put behind the same name; all numbers up
to it stay taken, whatever names they make and whoever asked for these, so that no staged value is
ever replaced.
-/

namespace StagedScript

namespace Stage

/-! ## Numbers behind names -/

theorem numbered_injective (name : String) : Function.Injective (numbered name) :=
  append_number_injective (name ++ "__")

section Number

variable (taken : Table Value) (name : String) (last : Nat)

/-- Not all of the next numbers are taken, as there are more of them than names. -/
theorem exists_free :
    ∃ n ∈ List.range' (last + 1) (taken.size + 1), numbered name n ∉ taken.keys := by
  by_contra hall
  push Not at hall
  have hnodup : ((List.range' (last + 1) (taken.size + 1)).map (numbered name)).Nodup :=
    (List.nodup_range' _).map (numbered_injective name)
  have hsub : (List.range' (last + 1) (taken.size + 1)).map (numbered name) ⊆ taken.keys := by
    intro x hx
    obtain ⟨n, hn, rfl⟩ := List.mem_map.1 hx
    exact hall n hn
  have hle := (List.subperm_of_subset hnodup hsub).length_le
  have hsize : taken.keys.length = taken.size := List.length_map _
  rw [List.length_map, List.length_range', hsize] at hle
  omega

/-- The number that is chosen is the first one, behind the last, with which the name is free. -/
theorem nextNumber_first : last < nextNumber taken name last ∧
    numbered name (nextNumber taken name last) ∉ taken.keys ∧
    ∀ m, last < m → m < nextNumber taken name last → numbered name m ∈ taken.keys := by
  obtain ⟨k, hk, hfree⟩ := exists_free taken name last
  have hsome : ((List.range' (last + 1) (taken.size + 1)).find?
      fun n => !taken.contains (numbered name n)).isSome := by
    refine List.find?_isSome.2 ⟨k, hk, ?_⟩
    simpa [Table.contains] using hfree
  obtain ⟨n, hn⟩ := Option.isSome_iff_exists.1 hsome
  have hnext : nextNumber taken name last = n := by
    unfold nextNumber
    dsimp only
    rw [hn, Option.getD_some]
  obtain ⟨hnfree, hmem, hbefore⟩ := List.find?_range'_eq_some.1 hn
  rw [hnext]
  refine ⟨?_, by simpa [Table.contains] using hnfree, fun m hlast hm => ?_⟩
  · have := List.mem_range'_1.1 hmem
    omega
  · simpa [Table.contains] using hbefore m hlast hm

end Number

/-! ## One staging -/

/-- What staging a value does: the name is bound if it is free, nothing is done if it is bound to an
equal value, and otherwise the first free number is put behind it. -/
inductive Places (st : Stage) (name : String) (v : Value) (s : Store) :
    String × Stage × Store → Prop
  | free : name ∉ (s.bindings st.globals).keys →
      Places st name v s (name, st, s.bind st.globals name v)
  | shared {old : Value} : (s.bindings st.globals).get? name = some old →
      s.equal old v = some true → Places st name v s (name, st, s)
  | numbered {old : Value} {n : Nat} : (s.bindings st.globals).get? name = some old →
      s.equal old v = some false → (st.counters.get? name).getD 0 < n →
      numbered name n ∉ (s.bindings st.globals).keys →
      (∀ m, (st.counters.get? name).getD 0 < m → m < n →
        Stage.numbered name m ∈ (s.bindings st.globals).keys) →
      Places st name v s (Stage.numbered name n, { st with counters := st.counters.insert name n },
        s.bind st.globals (Stage.numbered name n) v)

/-- A value is staged in one of these ways, or its comparison with what is bound to the name has no
end. -/
theorem place_cases (st : Stage) (name : String) (v : Value) (s : Store) :
    (∃ p, st.place name v s = some p ∧ st.Places name v s p) ∨
      st.place name v s = none ∧
        ∃ old, (s.bindings st.globals).get? name = some old ∧ s.equal old v = none := by
  cases hold : (s.bindings st.globals).get? name with
  | none =>
    refine .inl ⟨_, ?_, .free (Table.get?_eq_none_iff.1 hold)⟩
    simp only [place, hold]
  | some old =>
    cases hequal : s.equal old v with
    | none =>
      refine .inr ⟨?_, old, rfl, hequal⟩
      simp [place, hold, hequal]
    | some answer =>
      cases answer with
      | true =>
        refine .inl ⟨_, ?_, .shared hold hequal⟩
        simp [place, hold, hequal]
      | false =>
        obtain ⟨hlast, hfree, hfirst⟩ :=
          nextNumber_first (s.bindings st.globals) name ((st.counters.get? name).getD 0)
        refine .inl ⟨_, ?_, .numbered hold hequal hlast hfree hfirst⟩
        simp [place, hold, hequal]

theorem places_of_place {st : Stage} {name : String} {v : Value} {s : Store}
    {p : String × Stage × Store} (h : st.place name v s = some p) : st.Places name v s p := by
  obtain ⟨q, hq, hplaces⟩ | ⟨hnone, -⟩ := place_cases st name v s
  · cases hq.symm.trans h
    exact hplaces
  · cases hnone.symm.trans h

/-! ## Stagings one after the other -/

/-- A value that has been staged. -/
structure Placed where
  /-- The name that was asked for. -/
  base : String
  /-- The name that was told. -/
  key : String
  /-- What the latter was bound to then. -/
  object : Value

/-- Between two stagings values may be made and changed, and further names be bound. -/
structure Keeps (globals : NamespaceRef) (s t : Store) : Prop where
  valid : globals.index < s.namespaces.size → globals.index < t.namespaces.size
  bound : ∀ x v, (s.bindings globals).get? x = some v → (t.bindings globals).get? x = some v

/-- The values that have been staged since a stage with a new namespace was set up, in order. -/
inductive History : List Placed → Stage → Store → Prop
  | start (s : Store) : History [] ⟨(s.newNamespace .empty).1, .empty⟩ (s.newNamespace .empty).2
  | meanwhile {ps : List Placed} {st : Stage} {s t : Store} : History ps st s →
      Keeps st.globals s t → History ps st t
  | place {ps : List Placed} {st st' : Stage} {s t : Store} {name key : String} {v object : Value} :
      History ps st s → st.place name v s = some (key, st', t) →
      (t.bindings st.globals).get? key = some object → History (ps ++ [⟨name, key, object⟩]) st' t

theorem Keeps.keys {globals : NamespaceRef} {s t : Store} (h : Keeps globals s t) {x : String}
    (hx : x ∈ (s.bindings globals).keys) : x ∈ (t.bindings globals).keys := by
  obtain ⟨v, hv⟩ := Table.mem_keys_iff.1 hx
  exact Table.mem_keys_iff.2 ⟨v, h.bound x v hv⟩

/-- A name that is free can be bound. -/
theorem keeps_bind {globals : NamespaceRef} {s : Store} (hvalid : globals.index < s.namespaces.size)
    {x : String} (hx : x ∉ (s.bindings globals).keys) (v : Value) :
    Keeps globals s (s.bind globals x v) where
  valid _ := by rwa [Store.size_bind]
  bound y w hy := by
    rw [Store.bindings_bind x v hvalid, Table.get?_insert, if_neg]
    · exact hy
    · rintro rfl
      exact hx (Table.mem_keys_iff.2 ⟨w, hy⟩)

section Places

variable {st st' : Stage} {name key : String} {v : Value} {s t : Store}

theorem Places.keeps (h : st.Places name v s (key, st', t))
    (hvalid : st.globals.index < s.namespaces.size) : Keeps st.globals s t := by
  cases h with
  | free hname => exact keeps_bind hvalid hname v
  | shared => exact ⟨id, fun _ _ => id⟩
  | numbered _ _ _ hfree _ => exact keeps_bind hvalid hfree v

/-- Where a value was staged an equal value is found. -/
theorem Places.bound (h : st.Places name v s (key, st', t))
    (hvalid : st.globals.index < s.namespaces.size) (hv : s.equal v v = some true) :
    ∃ object, (t.bindings st.globals).get? key = some object ∧ t.equal object v = some true := by
  have hbind (x : String) : ((s.bind st.globals x v).bindings st.globals).get? x = some v :=
    Store.get?_bindings_bind x v hvalid
  have hequal (x : String) : (s.bind st.globals x v).equal v v = some true := by
    rw [(s.shapedAlike_bind st.globals x v).equal, hv]
  cases h with
  | free => exact ⟨v, hbind _, hequal _⟩
  | shared hold hequal => exact ⟨_, hold, hequal⟩
  | numbered => exact ⟨v, hbind _, hequal _⟩

end Places

/-- What holds after any stagings. -/
structure Sound (ps : List Placed) (st : Stage) (s : Store) : Prop where
  /-- There is a namespace. -/
  valid : st.globals.index < s.namespaces.size
  /-- The numbers that were put behind a name, and those that were passed over, are taken. -/
  counted : ∀ x n, 0 < n → n ≤ (st.counters.get? x).getD 0 →
    numbered x n ∈ (s.bindings st.globals).keys
  /-- What was staged is in its place. -/
  kept : ∀ p ∈ ps, (s.bindings st.globals).get? p.key = some p.object

theorem Sound.keeps {ps : List Placed} {st : Stage} {s t : Store} (h : Sound ps st s)
    (hst : Keeps st.globals s t) : Sound ps st t where
  valid := hst.valid h.valid
  counted x n hpos hn := hst.keys (h.counted x n hpos hn)
  kept p hp := hst.bound _ _ (h.kept p hp)

/-- A staging leaves sound what was sound. -/
theorem Sound.places {ps : List Placed} {st st' : Stage} {s t : Store} {name key : String}
    {v object : Value} (h : Sound ps st s) (hplaces : st.Places name v s (key, st', t))
    (hobject : (t.bindings st.globals).get? key = some object) :
    Sound (ps ++ [⟨name, key, object⟩]) st' t := by
  have hkeeps := h.keeps (hplaces.keeps h.valid)
  have hkept : ∀ p ∈ ps ++ [⟨name, key, object⟩],
      (t.bindings st.globals).get? p.key = some p.object := by
    intro p hp
    rcases List.mem_append.1 hp with hp | hp
    · exact hkeeps.kept p hp
    · obtain rfl := List.mem_singleton.1 hp
      exact hobject
  cases hplaces with
  | free | shared => exact ⟨hkeeps.valid, hkeeps.counted, hkept⟩
  | @numbered old n hold _ hlast hfree hfirst =>
    refine ⟨hkeeps.valid, fun x m hpos hm => ?_, hkept⟩
    have hgrow := keeps_bind h.valid hfree v
    dsimp only at hm ⊢
    rw [Table.get?_insert] at hm
    by_cases hx : x = name
    · subst hx
      rw [if_pos rfl, Option.getD_some] at hm
      -- Up to the last number the numbers were taken before, and up to the new one they are in its
      -- way.
      rcases Nat.lt_or_ge ((st.counters.get? x).getD 0) m with hm' | hm'
      · rcases Nat.lt_or_eq_of_le hm with hm | rfl
        · exact hgrow.keys (hfirst m hm' hm)
        · exact Table.mem_keys_iff.2 ⟨object, hobject⟩
      · exact hgrow.keys (h.counted x m hpos hm')
    · rw [if_neg hx] at hm
      exact hgrow.keys (h.counted x m hpos hm)

theorem History.sound {ps : List Placed} {st : Stage} {s : Store} (h : History ps st s) :
    Sound ps st s := by
  induction h with
  | start s =>
    refine ⟨?_, fun x n hpos hn => ?_, fun p hp => (List.not_mem_nil hp).elim⟩
    · simp [Store.newNamespace]
    · simp [Table.get?_empty] at hn
      omega
  | meanwhile _ hst ih => exact ih.keeps hst
  | @place ps st st' s t name key v object _ hplace hobject ih =>
    exact ih.places (places_of_place hplace) hobject

/-- Staged values are never replaced.  After any stagings, a value that is equal to itself can be
staged under any name, unless comparing it with the value that is bound to the name has no end.

* It is bound to the name itself if that is free or bound to an equal value.  Otherwise a number is
  put behind it, the first with which it is free, which no staging has told before.
* An equal value is found under the name that is told, and under each name that was told before what
  was bound to it then. -/
theorem History.place_spares_staged {ps : List Placed} {st : Stage} {s : Store}
    (h : History ps st s) (name : String) {v : Value} (hv : s.equal v v = some true)
    (hends : ∀ old, (s.bindings st.globals).get? name = some old → s.equal old v ≠ none) :
    ∃ key st' t object, st.place name v s = some (key, st', t) ∧
      (t.bindings st.globals).get? key = some object ∧ t.equal object v = some true ∧
      (key = name ∧ (name ∉ (s.bindings st.globals).keys ∨
          ∃ old, (s.bindings st.globals).get? name = some old ∧ s.equal old v = some true) ∨
        ∃ old n, (s.bindings st.globals).get? name = some old ∧ s.equal old v = some false ∧
          key = numbered name n ∧ 0 < n ∧ key ∉ (s.bindings st.globals).keys ∧
          (∀ m, 0 < m → m < n → numbered name m ∈ (s.bindings st.globals).keys) ∧
          ∀ p ∈ ps, p.key ≠ key) ∧
      ∀ p ∈ ps, (t.bindings st.globals).get? p.key = some p.object := by
  have hsound := h.sound
  obtain ⟨⟨key, st', t⟩, hplace, hplaces⟩ := (place_cases st name v s).resolve_right
    fun ⟨_, old, hold, hnone⟩ => hends old hold hnone
  obtain ⟨object, hobject, hequal⟩ := hplaces.bound hsound.valid hv
  refine ⟨key, st', t, object, hplace, hobject, hequal, ?_,
    (hsound.keeps (hplaces.keeps hsound.valid)).kept⟩
  cases hplaces with
  | free hname => exact .inl ⟨rfl, .inl hname⟩
  | shared hold hsame => exact .inl ⟨rfl, .inr ⟨_, hold, hsame⟩⟩
  | @numbered old n hold hdiffer hlast hfree hfirst =>
    refine .inr ⟨old, n, hold, hdiffer, rfl, by omega, hfree, fun m hpos hm => ?_, ?_⟩
    · rcases Nat.lt_or_ge ((st.counters.get? name).getD 0) m with hm' | hm'
      · exact hfirst m hm' hm
      · exact hsound.counted name m hpos hm'
    · intro p hp hkey
      refine hfree (Table.mem_keys_iff.2 ⟨p.object, ?_⟩)
      rw [← hkey]
      exact hsound.kept p hp

/-- The store of a new namespace in which two integers have been staged, the second one under the
name that the first would get with a number. -/
def sampleStaged : Store :=
  ((Store.empty.newNamespace .empty).2.bind ⟨0⟩ "k" (.int 1)).bind ⟨0⟩ "k__1" (.int 5)

/-- Another integer under the first name gets the second number. -/
theorem sampleStaged_spared :
    let ps : List Placed := [⟨"k", "k", .int 1⟩, ⟨"k__1", "k__1", .int 5⟩]
    History ps ⟨⟨0⟩, .empty⟩ sampleStaged ∧ sampleStaged.equal (.int 2) (.int 2) = some true ∧
    ∃ st' t, Stage.place ⟨⟨0⟩, .empty⟩ "k" (.int 2) sampleStaged = some ("k__2", st', t) ∧
      ∀ p ∈ ps, (t.bindings ⟨0⟩).get? p.key = some p.object := by
  intro ps
  have h : History ps ⟨⟨0⟩, .empty⟩ sampleStaged :=
    .place (.place (.start .empty) rfl rfl) rfl rfl
  have hv : sampleStaged.equal (.int 2) (.int 2) = some true := by decide
  have hkey : (Stage.place ⟨⟨0⟩, .empty⟩ "k" (.int 2) sampleStaged).map Prod.fst = some "k__2" := by
    decide
  obtain ⟨key, st', t, object, hplace, -, -, -, hkept⟩ :=
    h.place_spares_staged "k" hv fun old hold => by cases hold; decide
  rw [hplace] at hkey
  cases hkey
  exact ⟨h, hv, st', t, hplace, hkept⟩

/-- A store with two lists that hold themselves, the first of which has been staged. -/
def sampleLoops : Store :=
  { Store.empty with
    namespaces := #[.ofList [("k", .list ⟨0⟩)]]
    lists := #[#[.list ⟨0⟩], #[.list ⟨1⟩]] }

/-- The second list is equal to itself, but its comparison with the first one has no end. -/
theorem sampleLoops_brought_down :
    sampleLoops.equal (.list ⟨1⟩) (.list ⟨1⟩) = some true ∧
      Stage.place ⟨⟨0⟩, .empty⟩ "k" (.list ⟨1⟩) sampleLoops = none := by
  decide +kernel

end Stage

end StagedScript
