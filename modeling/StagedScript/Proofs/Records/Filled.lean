import Mathlib.Data.List.Perm.Subperm
import StagedScript.Proofs.Records.Changes

/-!
# Every slot is filled once

Only the number of arguments is compared with the number of slots.  That each slot is filled, and by
one argument, rests on the names of arguments meaning different slots, none of which an argument by
place fills: as many slots as there are arguments are all of them.
-/

namespace StagedScript

namespace RecordType

variable {t : RecordType} {key : String} {i n : Nat}

/-! ## Filling slots -/

section Fill

variable {slots : List Value} {v : Value} {es : List (String × Value)}

/-- The slot that a name means has the value of the name, if there is one. -/
theorem getElem?_fill (hes : (Entries.keys es).Nodup) (hkey : t.fieldIndex? key = some i)
    (hi : i < slots.length) : (t.fill slots es)[i]? = (es.lookup key).or slots[i]? := by
  induction es generalizing slots with
  | nil => rfl
  | cons e es ih =>
    obtain ⟨key', v⟩ := e
    obtain ⟨hnot, hrest⟩ := List.nodup_cons.1 hes
    by_cases heq : key = key'
    · subst heq
      have hlookup : es.lookup key = none := by
        rw [← Option.not_isSome_iff_eq_none, Entries.lookup_isSome_iff]
        exact hnot
      rw [fill_cons_of_some hkey, ih hrest (by rwa [List.length_set]), hlookup,
        List.getElem?_set_self hi, List.lookup_cons_self]
      rfl
    · rw [List.lookup_cons, beq_eq_false_iff_ne.2 heq]
      cases hkey' : t.fieldIndex? key' with
      | none =>
        rw [fill_cons_of_none hkey']
        exact ih hrest hi
      | some j =>
        have hij : j ≠ i := fun hij => heq (fieldIndex?_inj hkey (hij ▸ hkey'))
        rw [fill_cons_of_some hkey', ih hrest (by rwa [List.length_set]), List.getElem?_set_ne hij]

/-- A slot that no name means keeps its value. -/
theorem getElem?_fill_of_forall_ne (h : ∀ key ∈ Entries.keys es, t.fieldIndex? key ≠ some i) :
    (t.fill slots es)[i]? = slots[i]? := by
  induction es generalizing slots with
  | nil => rfl
  | cons e es ih =>
    obtain ⟨key, v⟩ := e
    obtain ⟨hkey, hes⟩ := List.forall_mem_cons.1 h
    cases hkey' : t.fieldIndex? key with
    | none => rw [fill_cons_of_none hkey', ih hes]
    | some j =>
      have hij : j ≠ i := fun hij => hkey (hkey'.trans (congrArg some hij))
      rw [fill_cons_of_some hkey', ih hes, List.getElem?_set_ne hij]

end Fill

/-! ## Accepted arguments -/

/-- The arguments are for the slots of the type: they are as many, and those by name are for fields
that no argument by place fills. -/
structure Accepts (t : RecordType) (args : Arguments) : Prop where
  count : args.positional.length + args.named.size = t.arity
  fields : ∀ key ∈ args.named.keys, key ∈ t.fields
  unfilled : ∀ key ∈ args.named.keys, key ∉ t.fields.take args.positional.length

theorem checkNames_eq_ok {es : List (String × Value)} : checkNames t n es = .ok () ↔
    ∀ key ∈ Entries.keys es, key ∈ t.fields ∧ key ∉ t.fields.take n := by
  induction es with
  | nil => exact iff_of_true rfl fun _ h => absurd h List.not_mem_nil
  | cons e es ih =>
    obtain ⟨key, v⟩ := e
    rw [Entries.keys, List.map_cons, List.forall_mem_cons, ← Entries.keys, ← ih, checkNames]
    cases h : t.fieldIndex? key with
    | none =>
      have hnot : key ∉ t.fields := by
        rw [← isSome_fieldIndex?, h]
        exact Bool.false_ne_true
      exact iff_of_false (fun h => by cases h) fun hall => hnot hall.1.1
    | some i =>
      have hmem : key ∈ t.fields := by
        rw [← isSome_fieldIndex?, h]
        rfl
      dsimp only
      rw [← le_fieldIndex? h]
      by_cases hi : i < n
      · rw [if_pos hi]
        exact iff_of_false (fun h => by cases h) fun hall => absurd hall.1.2 (Nat.not_le.2 hi)
      · rw [if_neg hi, and_iff_right ⟨hmem, Nat.not_lt.1 hi⟩]

/-- There are slots for arguments if they are accepted; what the slots hold at first does not
matter then. -/
theorem slotsOf_eq_ok {args : Arguments} {slots : List Value} :
    t.slotsOf args.positional args.named = .ok slots ↔ t.Accepts args ∧
      t.fill (args.positional ++ List.replicate args.named.size .none_) args.named.entries =
        slots := by
  rw [slotsOf_eq]
  by_cases hcount : args.positional.length + args.named.size = t.arity
  · rw [if_pos hcount, Except.bind_eq_ok]
    constructor
    · rintro ⟨⟨⟩, hnames, hslots⟩
      have hall := checkNames_eq_ok.1 hnames
      exact ⟨⟨hcount, fun key hkey => (hall key hkey).1, fun key hkey => (hall key hkey).2⟩,
        Except.ok.inj hslots⟩
    · rintro ⟨haccepts, rfl⟩
      exact ⟨(), checkNames_eq_ok.2 fun key hkey =>
        ⟨haccepts.fields key hkey, haccepts.unfilled key hkey⟩, rfl⟩
  · rw [if_neg hcount]
    exact iff_of_false (fun h => by cases h) fun h => hcount h.1.count

namespace Accepts

variable {args : Arguments}

/-- The arguments by place and the names of the others mean each slot once. -/
theorem perm_range (h : t.Accepts args) :
    (List.range args.positional.length ++ args.named.keys.filterMap t.fieldIndex?).Perm
      (List.range t.arity) := by
  have hlength : (args.named.keys.filterMap t.fieldIndex?).length = args.named.keys.length :=
    List.filterMap_length_eq_length.2 fun key hkey => isSome_fieldIndex?.2 (h.fields key hkey)
  have hcount := h.count
  refine (List.subperm_of_subset ?_ fun i hi => ?_).perm_of_length_le ?_
  · refine List.nodup_append.2 ⟨List.nodup_range, ?_, fun i hi j hj => ?_⟩
    · exact args.named.nodup.filterMap fun _ _ _ => fieldIndex?_inj
    · obtain ⟨key, hkey, hj⟩ := List.mem_filterMap.1 hj
      have hle := (le_fieldIndex? hj).2 (h.unfilled key hkey)
      have hlt := List.mem_range.1 hi
      omega
  · rw [List.mem_range]
    rcases List.mem_append.1 hi with hi | hi
    · have hlt := List.mem_range.1 hi
      omega
    · obtain ⟨key, -, hi⟩ := List.mem_filterMap.1 hi
      exact lt_arity_of_fieldIndex? hi
  · rw [List.length_range, List.length_append, List.length_range, hlength]
    simp only [Table.keys, Entries.keys, List.length_map]
    exact Nat.le_of_eq hcount.symm

/-- A slot that no argument by place fills is meant by the name of an argument. -/
theorem exists_key (h : t.Accepts args) (hn : args.positional.length ≤ i) (hi : i < t.arity) :
    ∃ key ∈ args.named.keys, t.fieldIndex? key = some i := by
  have hmem := h.perm_range.mem_iff.2 (List.mem_range.2 hi)
  rcases List.mem_append.1 hmem with hmem | hmem
  · exact absurd (List.mem_range.1 hmem) (Nat.not_lt.2 hn)
  · exact List.mem_filterMap.1 hmem

/-- A slot has the argument with its place, or else the one with its field's name, whatever it held
at first. -/
theorem getElem?_fill (h : t.Accepts args) (filler : Value) (hi : i < t.fields.length) :
    (t.fill (args.positional ++ List.replicate args.named.size filler) args.named.entries)[i]? =
      if i < args.positional.length then args.positional[i]? else args.named.get? t.fields[i] := by
  split
  · next hlt =>
    rw [getElem?_fill_of_forall_ne fun key hkey hindex => ?_, List.getElem?_append_left hlt]
    exact absurd ((le_fieldIndex? hindex).2 (h.unfilled key hkey)) (Nat.not_le.2 hlt)
  · next hlt =>
    obtain ⟨key, hkey, hindex⟩ := h.exists_key (Nat.not_lt.1 hlt) hi
    have hfield : t.fields[i] = key :=
      Option.some.inj ((List.getElem?_eq_getElem hi).symm.trans (getElem?_fieldIndex? hindex))
    have hlength : i < (args.positional ++ List.replicate args.named.size filler).length := by
      rw [List.length_append, List.length_replicate, h.count]
      exact hi
    obtain ⟨v, hv⟩ := Table.mem_keys_iff.1 hkey
    rw [RecordType.getElem?_fill args.named.nodup hindex hlength, hfield, hv,
      show args.named.entries.lookup key = some v from hv]
    rfl

/-- What the slots hold at first does not matter. -/
theorem fill_eq (h : t.Accepts args) (filler filler' : Value) :
    t.fill (args.positional ++ List.replicate args.named.size filler) args.named.entries =
      t.fill (args.positional ++ List.replicate args.named.size filler') args.named.entries := by
  refine List.ext_getElem? fun i => ?_
  by_cases hi : i < t.fields.length
  · rw [h.getElem?_fill filler hi, h.getElem?_fill filler' hi]
  · have hnone (filler : Value) : (t.fill (args.positional ++
        List.replicate args.named.size filler) args.named.entries)[i]? = none := by
      rw [List.getElem?_eq_none_iff, length_fill, List.length_append, List.length_replicate,
        h.count]
      exact Nat.not_lt.1 hi
    rw [hnone, hnone]

end Accepts

end RecordType

/-! ## The theorem -/

namespace Run

/-- A type makes a record from arguments exactly if it accepts them.  The arguments then mean each
slot once: a slot has the argument with its place, or else the one with the name of its field, and
what the slots hold at first is in none of them.  However records are changed later, the record has
as many slots as its type has fields. -/
theorem instantiate_fills_once (type : RecordTypeRef) (args : Arguments) (s : Store) :
    let t := s.getRecordType type
    ((∃ ref s', instantiate type args s = .ok ref s') ↔ t.Accepts args) ∧
      ∀ ref s', instantiate type args s = .ok ref s' →
        (List.range args.positional.length ++ args.named.keys.filterMap t.fieldIndex?).Perm
          (List.range t.arity) ∧
        (∀ i (hi : i < t.fields.length), (s'.getRecord ref).slots[i]? =
          if i < args.positional.length then args.positional[i]? else args.named.get? t.fields[i]) ∧
        (∀ filler, t.fill (args.positional ++ List.replicate args.named.size filler)
          args.named.entries = (s'.getRecord ref).slots) ∧
        ∀ changes, let u := s'.changedAll changes
          (u.getRecord ref).type = type ∧ u.getRecordType type = t ∧
            (u.getRecord ref).slots.length = t.arity := by
  intro t
  refine ⟨⟨?_, fun h => ?_⟩, fun ref s' hmake => ?_⟩
  · rintro ⟨ref, s', hmake⟩
    obtain ⟨slots, hslots, -⟩ := instantiate_eq_ok.1 hmake
    exact (RecordType.slotsOf_eq_ok.1 hslots).1
  · exact ⟨_, _, instantiate_eq_ok.2 ⟨_, RecordType.slotsOf_eq_ok.2 ⟨h, rfl⟩, rfl⟩⟩
  · obtain ⟨slots, hslots, hnew⟩ := instantiate_eq_ok.1 hmake
    obtain ⟨haccepts, hfill⟩ := RecordType.slotsOf_eq_ok.1 hslots
    have hget : (s'.getRecord ref).slots = slots :=
      congrArg Record.slots (getRecord_of_newRecord hnew)
    refine ⟨haccepts.perm_range, fun i hi => ?_, fun filler => ?_, fun changes => ?_⟩
    · rw [hget, ← hfill]
      exact haccepts.getElem?_fill .none_ hi
    · rw [hget, ← hfill]
      exact haccepts.fill_eq filler .none_
    · have hsame := s'.sameRecords_changedAll changes
      have href := hsame.isInstance (isInstance_instantiate hmake)
      have htype : (s'.changedAll changes).getRecordType type = t := by
        rw [hsame.getRecordType_eq]
        cases hnew
        rfl
      exact ⟨href.ofType, htype, htype ▸ href.slots⟩

end Run

/-- The body of a class with a name that two fields have. -/
def sampleRepeated : Table Value :=
  .ofList [("_fields", .tuple 0 [.str 1 "a", .str 2 "a", .str 3 "b"])]

/-- The fields of one name are filled by place, and the one behind them by its name. -/
theorem sampleRepeated_filled :
    ∃ t, RecordType.ofClass .empty "Twice" sampleRepeated none = .ok t ∧
      let s := { Store.empty with recordTypes := #[t] }
      let args : Arguments := ⟨[.int 1, .int 2], .ofList [("b", .int 3)]⟩
      t.Accepts args ∧ ∃ ref s', Run.instantiate ⟨0⟩ args s = .ok ref s' ∧
        (s'.getRecord ref).slots = [.int 1, .int 2, .int 3] := by
  refine ⟨_, rfl, ?_⟩
  intro s args
  have haccepts : (s.getRecordType ⟨0⟩).Accepts args := ⟨rfl, by decide, by decide⟩
  obtain ⟨ref, s', hmake⟩ := (Run.instantiate_fills_once ⟨0⟩ args s).1.2 haccepts
  obtain ⟨-, -, hfill, -⟩ := (Run.instantiate_fills_once ⟨0⟩ args s).2 ref s' hmake
  exact ⟨haccepts, ref, s', hmake, (hfill .none_).symm.trans rfl⟩

end StagedScript
