import StagedScript.Proofs.Records.Exact
import StagedScript.Run.Method

/-!
# Changing records

A record is changed in one slot, that is given by its number, as an attribute or as an item, or in
several fields at once.  A change that is refused changes nothing, and no change takes a record
away from its type or a slot away from a record.
-/

namespace StagedScript

/-- A change of a record. -/
inductive RecordChange where
  /-- A slot is given a value. -/
  | slot (i : Nat) (v : Value)
  /-- An attribute is given a value. -/
  | attr (name : String) (v : Value)
  /-- An item is given a value. -/
  | item (index v : Value)
  /-- The method that replaces fields is called. -/
  | replace (args : Arguments)

/-- Makes a change. -/
def RecordChange.run (r : RecordRef) : RecordChange → Run Unit
  | slot i v => Run.setSlot r i v
  | attr name v => Run.setAttr (.record r) name v
  | item index v => Run.setItem (.record r) index v
  | replace args => do
    let _ ← Run.callMethod (.record r .replace) args
    return ()

namespace Store

/-- The store after a change was tried. -/
def changed (s : Store) (r : RecordRef) (c : RecordChange) : Store :=
  match c.run r s with
  | .ok _ s' | .error _ s' => s'

/-- The store after changes of records were tried, one after the other. -/
def changedAll (s : Store) (cs : List (RecordRef × RecordChange)) : Store :=
  cs.foldl (fun s (r, c) => s.changed r c) s

/-! ## New slots -/

section Slots

variable {s : Store} {r ref : RecordRef} {type : RecordTypeRef} {slots : List Value}

theorem modifySlots_eq (s : Store) (r : RecordRef) (f : List Value → List Value) :
    s.modifySlots r f = s.modifySlots r fun _ => f (s.getRecord r).slots := by
  unfold modifySlots getRecord
  congr 1
  refine Array.ext_getElem? fun i => ?_
  rw [Array.getElem?_modify, Array.getElem?_modify]
  split
  · next hi =>
    subst hi
    cases s.records[r.index]? <;> rfl
  · rfl

/-- Other records keep their slots. -/
theorem getRecord_modifySlots (hslots : slots.length = (s.getRecord r).slots.length) :
    (s.modifySlots r fun _ => slots).getRecord ref =
      if ref = r then { s.getRecord r with slots } else s.getRecord ref := by
  unfold getRecord modifySlots at *
  dsimp only
  rw [Array.getElem?_modify]
  by_cases h : ref = r
  · subst h
    rw [if_pos rfl, if_pos rfl]
    cases hget : s.records[ref.index]? with
    | none =>
      -- A record that is not there has no slots, and cannot be given any.
      rw [hget] at hslots
      obtain rfl := List.eq_nil_of_length_eq_zero hslots
      rfl
    | some record => rfl
  · have hindex : r.index ≠ ref.index := fun hi => h (congrArg RecordRef.mk hi.symm)
    rw [if_neg hindex, if_neg h]

end Slots

end Store

namespace Run

/-! ## What a change does -/

/-- The computation leaves the store as it is. -/
def Peeks {α : Type} (x : Run α) : Prop := ∀ s, (∃ e, x s = .error e s) ∨ ∃ a, x s = .ok a s

/-- The computation fails and leaves the store as it is, or does no more than to give every slot of
the record a value. -/
def Refills (r : RecordRef) (x : Run Unit) : Prop :=
  ∀ s, (∃ e, x s = .error e s) ∨ ∃ slots, slots.length = (s.getRecord r).slots.length ∧
    x s = .ok () (s.modifySlots r fun _ => slots)

section

variable {α β : Type} {r : RecordRef}

theorem peeks_fail (cause : Fault) : Peeks (fail cause : Run α) := fun _ => .inl ⟨_, rfl⟩

theorem peeks_pure (a : α) : Peeks (pure a) := fun _ => .inr ⟨a, rfl⟩

theorem peeks_view (f : Store → α) : Peeks (view f) := fun s => .inr ⟨f s, rfl⟩

theorem Peeks.bind {x : Run α} {f : α → Run β} (hx : Peeks x) (hf : ∀ a, Peeks (f a)) :
    Peeks (x >>= f) := by
  intro s
  rcases hx s with ⟨e, he⟩ | ⟨a, ha⟩
  · exact .inl ⟨e, EStateM.bind_error he⟩
  · rw [EStateM.bind_ok ha]
    exact hf a s

theorem Peeks.refills {x : Run α} {f : α → Run Unit} (hx : Peeks x) (hf : ∀ a, Refills r (f a)) :
    Refills r (x >>= f) := by
  intro s
  rcases hx s with ⟨e, he⟩ | ⟨a, ha⟩
  · exact .inl ⟨e, EStateM.bind_error he⟩
  · rw [EStateM.bind_ok ha]
    exact hf a s

theorem refills_fail (cause : Fault) : Refills r (fail cause) := fun _ => .inl ⟨_, rfl⟩

theorem peeks_place (container : Value) (length : Nat) (index : Value) :
    Peeks (place container length index) := by
  unfold place
  split
  · exact (peeks_view _).bind fun _ => (peeks_view _).bind fun _ => peeks_fail _
  · split
    · exact peeks_pure _
    · exact peeks_fail _

theorem peeks_checkCount (callee : String) (args : List Value) (least most : Nat) :
    Peeks (checkCount callee args least most) := by
  unfold checkCount
  split
  · exact peeks_fail _
  · split
    · exact peeks_fail _
    · exact peeks_pure _

theorem refills_setSlot (i : Nat) (v : Value) : Refills r (setSlot r i v) := by
  refine (peeks_view _).refills fun record => ?_
  dsimp only
  split
  · intro s
    refine .inr ⟨(s.getRecord r).slots.set i v, List.length_set, ?_⟩
    rw [← Store.modifySlots_eq s r (·.set i v)]
    rfl
  · exact refills_fail _

theorem refills_setField (name : String) (v : Value) : Refills r (setField r name v) := by
  refine (peeks_view _).refills fun t => ?_
  split
  · exact refills_setSlot _ v
  · exact refills_fail _

theorem refills_setItem (index v : Value) : Refills r (setItem (.record r) index v) :=
  (peeks_view _).refills fun _ => (peeks_place _ _ _).refills fun i => refills_setSlot i v

end

/-- Several fields are replaced if all of them are fields, and otherwise none. -/
theorem replaceFields_eq {r : RecordRef} {updates : Table Value} {s : Store} :
    replaceFields r updates s =
      match (s.typeOf r).replaced (s.getRecord r).slots updates with
      | .ok slots => .ok () (s.modifySlots r fun _ => slots)
      | .error e => .error (.error ⟨none, e⟩) s := by
  have htype : view (·.typeOf r) s = .ok (s.typeOf r) s := rfl
  have hrecord : view (·.getRecord r) s = .ok (s.getRecord r) s := rfl
  unfold replaceFields
  rw [EStateM.bind_ok htype, EStateM.bind_ok hrecord]
  cases (s.typeOf r).replaced (s.getRecord r).slots updates <;> rfl

end Run

theorem RecordType.length_replaced {t : RecordType} {slots slots' : List Value}
    {updates : Table Value} (h : t.replaced slots updates = .ok slots') :
    slots'.length = slots.length := by
  unfold replaced at h
  split at h
  · cases h
    exact length_fill _ _
  · cases h

namespace Run

theorem refills_replaceFields (r : RecordRef) (updates : Table Value) :
    Refills r (replaceFields r updates) := by
  intro s
  rw [replaceFields_eq]
  cases h : (s.typeOf r).replaced (s.getRecord r).slots updates with
  | ok slots => exact .inr ⟨slots, RecordType.length_replaced h, rfl⟩
  | error e => exact .inl ⟨_, rfl⟩

end Run

/-- A change fails and leaves the store as it is, or does no more than to give every slot of the
record a value. -/
theorem RecordChange.refills (r : RecordRef) (c : RecordChange) : Run.Refills r (c.run r) := by
  cases c with
  | slot i v => exact Run.refills_setSlot i v
  | attr name v => exact Run.refills_setField name v
  | item index v => exact Run.refills_setItem index v
  | replace args =>
    have heq : (RecordChange.replace args).run r = (do
        Run.checkCount RecordMethod.replace.name args.positional 0 0
        Run.replaceFields r args.named) := by
      simp only [RecordChange.run, Run.callMethod, Run.callRecordMethod, bind_assoc, pure_bind,
        bind_pure_unit]
    rw [heq]
    exact (Run.peeks_checkCount _ _ _ _).refills fun _ => Run.refills_replaceFields r _

/-! ## What no change touches -/

namespace Store

/-- The second store has the record types of the first one, and its records are of the same types
and have as many slots. -/
structure SameRecords (s t : Store) : Prop where
  recordTypes : t.recordTypes = s.recordTypes
  type : ∀ ref, (t.getRecord ref).type = (s.getRecord ref).type
  length : ∀ ref, (t.getRecord ref).slots.length = (s.getRecord ref).slots.length

variable {s t u : Store} {ref : RecordRef} {type : RecordTypeRef}

theorem SameRecords.refl (s : Store) : s.SameRecords s := ⟨rfl, fun _ => rfl, fun _ => rfl⟩

theorem SameRecords.trans (hst : s.SameRecords t) (htu : t.SameRecords u) : s.SameRecords u where
  recordTypes := htu.recordTypes.trans hst.recordTypes
  type ref := (htu.type ref).trans (hst.type ref)
  length ref := (htu.length ref).trans (hst.length ref)

theorem SameRecords.getRecordType_eq (h : s.SameRecords t) (type : RecordTypeRef) :
    t.getRecordType type = s.getRecordType type := by
  unfold getRecordType
  rw [h.recordTypes]

theorem SameRecords.isInstance (h : s.SameRecords t) (href : s.IsInstance ref type) :
    t.IsInstance ref type where
  ofType := (h.type ref).trans href.ofType
  slots := by rw [h.length, h.getRecordType_eq, href.slots]

theorem sameRecords_modifySlots {r : RecordRef} {slots : List Value}
    (hslots : slots.length = (s.getRecord r).slots.length) :
    s.SameRecords (s.modifySlots r fun _ => slots) := by
  refine ⟨rfl, fun ref => ?_, fun ref => ?_⟩
  · rw [getRecord_modifySlots hslots]
    split
    · next h => rw [h]
    · rfl
  · rw [getRecord_modifySlots hslots]
    split
    · next h => rw [h, hslots]
    · rfl

/-- A change leaves every record a record of its type. -/
theorem sameRecords_changed (s : Store) (r : RecordRef) (c : RecordChange) :
    s.SameRecords (s.changed r c) := by
  unfold changed
  rcases c.refills r s with ⟨e, h⟩ | ⟨slots, hslots, h⟩
  · rw [h]
    exact .refl s
  · rw [h]
    exact sameRecords_modifySlots hslots

/-- Whatever is changed, every record stays a record of its type. -/
theorem sameRecords_changedAll (s : Store) (cs : List (RecordRef × RecordChange)) :
    s.SameRecords (s.changedAll cs) := by
  induction cs generalizing s with
  | nil => exact .refl s
  | cons c cs ih => exact (sameRecords_changed s c.1 c.2).trans (ih _)

end Store

end StagedScript
