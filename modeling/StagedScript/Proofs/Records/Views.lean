import StagedScript.Proofs.Comparing.Equality
import StagedScript.Proofs.Records.Filled
import StagedScript.Run.Call

/-!
# What a record is seen to hold

A field of a record is looked at by its name, by its place, and in what the record is turned into.
The accessors and the list of the fields are two tables, and they agree for a type that was defined
from names: so every look at a field shows what its slot holds, whatever has been done to the record
before.
-/

namespace StagedScript

namespace Store

/-- All looks at the fields of a record show the same values. -/
structure Shows (s : Store) (ref : RecordRef) (fields : List String) (slots : List Value) :
    Prop where
  length : slots.length = fields.length
  attr : ∀ (i : Nat) x v, fields[i]? = some x → slots[i]? = some v →
    Run.getAttr (.record ref) x s = .ok v s
  item : ∀ (i : Nat) v, slots[i]? = some v →
    Run.getItem (.record ref) (.int (.ofNat i)) s = .ok v s
  itemFromEnd : ∀ (i : Nat) v, slots[i]? = some v →
    Run.getItem (.record ref) (.int (.ofInt (i - fields.length))) s = .ok v s
  items : Run.items (.record ref) s = .ok slots s
  tuple : ∀ sink, ∃ identity s',
    Run.callBuiltin sink .tuple (.ofList [.record ref]) s = .ok (.tuple identity slots) s'
  asDict : ∃ d s', Run.callMethod (.record ref .asDict) (.ofList []) s = .ok (.dict d) s' ∧
    (s'.dictEntries d).entries = fields.zip slots

/-- The record is one of a type that was defined from names. -/
structure IsDefined (s : Store) (ref : RecordRef) (type : RecordTypeRef) (name : String)
    (fields : List String) : Prop where
  isOf : (s.getRecordType type).IsOf name fields
  isInstance : s.IsInstance ref type
  distinct : fields.Nodup
  few : fields.length < Run.lengthLimit
  noMethod : ∀ x ∈ fields, RecordMethod.ofName? x = none

namespace IsDefined

variable {s t : Store} {ref : RecordRef} {type : RecordTypeRef} {name : String}
  {fields : List String}

theorem typeOf_eq (h : s.IsDefined ref type name fields) : s.typeOf ref = s.getRecordType type := by
  rw [typeOf, h.isInstance.ofType]

theorem length_slots (h : s.IsDefined ref type name fields) :
    (s.getRecord ref).slots.length = fields.length := by
  rw [h.isInstance.slots, RecordType.arity, h.isOf.fieldNames]

/-- Changes of records do not take a record away from its type. -/
theorem sameRecords (h : s.IsDefined ref type name fields) (hsame : s.SameRecords t) :
    t.IsDefined ref type name fields :=
  ⟨by rw [hsame.getRecordType_eq]; exact h.isOf, hsame.isInstance h.isInstance, h.distinct, h.few,
    h.noMethod⟩

theorem keys_zip_slots (h : s.IsDefined ref type name fields) :
    Entries.keys (fields.zip (s.getRecord ref).slots) = fields :=
  List.map_fst_zip (Nat.le_of_eq h.length_slots.symm)

theorem entries_named (h : s.IsDefined ref type name fields) :
    ((s.typeOf ref).named (s.getRecord ref).slots).entries =
      fields.zip (s.getRecord ref).slots := by
  unfold RecordType.named
  rw [h.typeOf_eq, h.isOf.fieldNames,
    Table.entries_ofList (by rw [h.keys_zip_slots]; exact h.distinct)]

/-- The values of a record by the names of its fields make the record's slots again. -/
theorem slotsOf_named (h : s.IsDefined ref type name fields) :
    (s.getRecordType type).slotsOf [] ((s.typeOf ref).named (s.getRecord ref).slots) =
      .ok (s.getRecord ref).slots := by
  generalize htable : (s.typeOf ref).named (s.getRecord ref).slots = table
  generalize hslots : (s.getRecord ref).slots = slots
  have hentries : table.entries = fields.zip slots := by rw [← htable, ← hslots, h.entries_named]
  have hlength : slots.length = fields.length := by rw [← hslots, h.length_slots]
  have hfields : (s.getRecordType type).fields = fields := h.isOf.fieldNames
  have hkeys : table.keys = fields := by rw [Table.keys, hentries, ← hslots, h.keys_zip_slots]
  have haccepts : (s.getRecordType type).Accepts ⟨[], table⟩ := by
    refine ⟨?_, fun x hx => ?_, fun x hx => List.not_mem_nil⟩
    · rw [List.length_nil, Nat.zero_add, RecordType.arity, hfields, Table.size, hentries,
        List.length_zip, hlength, Nat.min_self]
    · rwa [hfields, ← hkeys]
  refine RecordType.slotsOf_eq_ok.2 ⟨haccepts, List.ext_getElem? fun i => ?_⟩
  by_cases hi : i < (s.getRecordType type).fields.length
  · have hi' : i < slots.length := by rw [hlength, ← hfields]; exact hi
    have hmem : ((s.getRecordType type).fields[i], slots[i]) ∈ table.entries := by
      rw [hentries]
      refine List.mem_iff_getElem?.2 ⟨i, List.getElem?_zip_eq_some.2 ⟨?_, ?_⟩⟩
      · rw [← hfields]
        exact List.getElem?_eq_getElem hi
      · exact List.getElem?_eq_getElem hi'
    rw [haccepts.getElem?_fill .none_ hi]
    change table.get? _ = _
    rw [Table.get?_of_mem hmem, List.getElem?_eq_getElem hi']
  · rw [List.getElem?_eq_none_iff.2, List.getElem?_eq_none_iff.2]
    · rwa [hlength, ← hfields, ← Nat.not_lt]
    · rw [RecordType.length_fill, List.length_append, List.length_replicate, haccepts.count]
      exact Nat.not_lt.1 hi

/-! ## Looking at fields -/

/-- The accessor of a field's name leads to the field's slot. -/
theorem getAttr_eq (h : s.IsDefined ref type name fields) {i : Nat} {x : String} {v : Value}
    (hx : fields[i]? = some x) (hv : (s.getRecord ref).slots[i]? = some v) :
    Run.getAttr (.record ref) x s = .ok v s := by
  obtain ⟨hi, hxi⟩ := List.getElem?_eq_some_iff.1 hx
  have haccessor : (s.typeOf ref).accessors.get? x = some i := by
    rw [h.typeOf_eq, ← hxi]
    exact h.isOf.get?_accessors.2 i hi
  have hfield : Run.field? s ref x = some v := by
    unfold Run.field?
    rw [haccessor]
    exact hv
  have hmethod : (Value.record ref).method? x = none := by
    unfold Value.method?
    rw [h.noMethod x (List.mem_of_getElem? hx)]
    rfl
  have htype : Run.view (·.typeOf ref) s = .ok (s.typeOf ref) s := rfl
  have hview : Run.view (Run.field? · ref x) s = .ok (some v) s := by
    rw [← hfield]
    rfl
  unfold Run.getAttr Run.recordAttr
  rw [hmethod]
  dsimp only
  rw [EStateM.bind_ok htype, EStateM.bind_ok hview]
  rfl

/-- An index leads to the slot with the place that it means. -/
theorem getItem_eq {i : Nat} {index : Int64} {v : Value}
    (hplace : Run.place? index.toInt (s.getRecord ref).slots.length = some i)
    (hv : (s.getRecord ref).slots[i]? = some v) :
    Run.getItem (.record ref) (.int index) s = .ok v s := by
  have hrecord : Run.view (·.getRecord ref) s = .ok (s.getRecord ref) s := rfl
  unfold Run.getItem Run.itemAt
  dsimp only
  rw [EStateM.bind_ok hrecord, Run.place_eq hplace, pure_bind, hv]
  rfl

theorem shows (h : s.IsDefined ref type name fields) :
    s.Shows ref fields (s.getRecord ref).slots := by
  have hlength := h.length_slots
  have hitems : Run.items (.record ref) s = .ok (s.getRecord ref).slots s :=
    Run.items_of_members rfl
  have hfew : (s.getRecord ref).slots.length < Run.lengthLimit := hlength ▸ h.few
  refine ⟨hlength, fun i x v => h.getAttr_eq, fun i v hv => ?_, fun i v hv => ?_, hitems,
    fun sink => ?_, ?_⟩
  · have hi := (List.getElem?_eq_some_iff.1 hv).1
    refine getItem_eq ?_ hv
    rw [Int64.toInt_ofNat_of_lt (Nat.lt_trans hi hfew)]
    exact Run.place?_ofNat hfew hi
  · have hi := (List.getElem?_eq_some_iff.1 hv).1
    have hfits : StagedScript.fits (i - fields.length : Int) = true := by
      have hlimit : Run.lengthLimit = 9223372036854775808 := by decide
      have hfew := h.few
      refine StagedScript.fits_iff.2 ⟨?_, ?_⟩ <;> omega
    refine getItem_eq ?_ hv
    rw [toInt_ofInt_of_fits hfits, ← hlength]
    exact Run.place?_sub hfew hi
  · refine ⟨s.nextIdentity, s.newIdentity.2, ?_⟩
    change (Run.items (.record ref) >>= Run.newTuple) s = _
    rw [EStateM.bind_ok hitems]
    rfl
  · refine ⟨⟨s.dicts.size⟩, (s.newDict ((s.typeOf ref).named (s.getRecord ref).slots)).2, rfl, ?_⟩
    rw [← h.entries_named]
    unfold dictEntries newDict
    rw [Array.getElem?_push_size]
    rfl

end IsDefined

end Store

/-! ## Replacing fields -/

namespace RecordType

variable {t : RecordType} {updates : Table Value}

theorem replaced_of_forall (slots : List Value) (h : ∀ key ∈ updates.keys, key ∈ t.fields) :
    t.replaced slots updates = .ok (t.fill slots updates.entries) := by
  have hnone : updates.keys.filter (fun key => (t.fieldIndex? key).isNone) = [] := by
    refine List.filter_eq_nil_iff.2 fun key hkey => ?_
    rw [Option.isNone_iff_eq_none, ← ne_eq, ← Option.isSome_iff_ne_none, isSome_fieldIndex?]
    exact h key hkey
  unfold replaced
  rw [hnone]

theorem replaced_of_not_mem (slots : List Value) {key : String} (hkey : key ∈ updates.keys)
    (hnot : key ∉ t.fields) : ∃ e, t.replaced slots updates = .error e := by
  have hmem : key ∈ updates.keys.filter fun key => (t.fieldIndex? key).isNone := by
    refine List.mem_filter.2 ⟨hkey, ?_⟩
    rw [Option.isNone_iff_eq_none, ← Option.not_isSome_iff_eq_none, isSome_fieldIndex?]
    exact hnot
  unfold replaced
  split
  · next hnone =>
    rw [hnone] at hmem
    cases hmem
  · exact ⟨_, rfl⟩

end RecordType

theorem Run.callMethod_replace {s : Store} {ref : RecordRef} {updates : Table Value} :
    callMethod (.record ref .replace) ⟨[], updates⟩ s =
      match (s.typeOf ref).replaced (s.getRecord ref).slots updates with
      | .ok slots => .ok (.record ref) (s.modifySlots ref fun _ => slots)
      | .error e => .error (.error ⟨none, e⟩) s := by
  change (do replaceFields ref updates; return .record ref : Run Value) s = _
  cases h : (s.typeOf ref).replaced (s.getRecord ref).slots updates with
  | ok slots =>
    refine EStateM.bind_ok (a := ()) ?_
    rw [replaceFields_eq, h]
  | error e =>
    refine EStateM.bind_error ?_
    rw [replaceFields_eq, h]

namespace Store

/-- The method of a record that replaces fields is refused if there is no field of one of the names,
and changes nothing then.  Otherwise it gives the slots of the fields with the names the new values,
changes nothing else, and returns the record. -/
structure ReplacesAtOnce (s : Store) (ref : RecordRef) (fields : List String) (slots : List Value)
    (updates : Table Value) : Prop where
  refused : (∃ x ∈ updates.keys, x ∉ fields) →
    ∃ e, Run.callMethod (.record ref .replace) ⟨[], updates⟩ s = .error e s
  replaced : (∀ x ∈ updates.keys, x ∈ fields) → ∃ slots' s',
    Run.callMethod (.record ref .replace) ⟨[], updates⟩ s = .ok (.record ref) s' ∧
    s' = (s.modifySlots ref fun _ => slots') ∧ (s'.getRecord ref).slots = slots' ∧
    slots'.length = slots.length ∧
    ∀ (i : Nat) x, fields[i]? = some x → slots'[i]? = (updates.get? x).or slots[i]?

theorem IsDefined.replacesAtOnce {s : Store} {ref : RecordRef} {type : RecordTypeRef}
    {name : String} {fields : List String} (h : s.IsDefined ref type name fields)
    (updates : Table Value) :
    s.ReplacesAtOnce ref fields (s.getRecord ref).slots updates := by
  have hfields : (s.typeOf ref).fields = fields := by rw [h.typeOf_eq, h.isOf.fieldNames]
  refine ⟨?_, fun hall => ?_⟩
  · rintro ⟨x, hx, hnot⟩
    obtain ⟨e, he⟩ := RecordType.replaced_of_not_mem (s.getRecord ref).slots hx
      (hfields ▸ hnot)
    rw [Run.callMethod_replace, he]
    exact ⟨_, rfl⟩
  · have hreplaced := RecordType.replaced_of_forall (s.getRecord ref).slots
      (hfields ▸ hall : ∀ x ∈ updates.keys, x ∈ (s.typeOf ref).fields)
    have hlength := RecordType.length_replaced hreplaced
    refine ⟨_, _, by rw [Run.callMethod_replace, hreplaced], rfl, ?_, hlength, fun i x hx => ?_⟩
    · rw [getRecord_modifySlots hlength, if_pos rfl]
    · have hi : i < (s.getRecord ref).slots.length :=
        h.length_slots ▸ (List.getElem?_eq_some_iff.1 hx).1
      have hindex : (s.typeOf ref).fieldIndex? x = some i :=
        RecordType.fieldIndex?_of_nodup (hfields ▸ h.distinct) (hfields ▸ hx)
      exact RecordType.getElem?_fill updates.nodup hindex hi

end Store

/-! ## Making a record again -/

/-- Arguments by new names are all added. -/
theorem Arguments.foldlM_addNamed {args : Arguments} {es : List (String × Value)}
    (h : (args.named.keys ++ Entries.keys es).Nodup) :
    es.foldlM (fun args (key, v) => args.addNamed key v) args =
      .ok { args with named := args.named.insertAll es } := by
  induction es generalizing args with
  | nil => rfl
  | cons e es ih =>
    obtain ⟨key, v⟩ := e
    have hkey : key ∉ args.named.keys := fun hkey =>
      (List.nodup_append.1 h).2.2 key hkey key List.mem_cons_self rfl
    have hadd : args.addNamed key v = .ok { args with named := args.named.insert key v } := by
      unfold addNamed
      rw [if_neg]
      rwa [Table.contains_iff]
    rw [List.foldlM_cons]
    dsimp only
    rw [hadd]
    refine ih ?_
    rw [Table.keys_insert, if_neg hkey, List.append_assoc]
    exact h

namespace Run

/-- The entries of a dict are the arguments by name. -/
theorem addArgument_dict {s : Store} {d : DictRef} {entries : Table Value}
    (hd : s.dictEntries d = entries) :
    addArgument (.ofList []) .starStar (.dict d) s = .ok ⟨[], entries⟩ s := by
  have hview : view (·.dictEntries d) s = .ok entries s := by
    rw [← hd]
    rfl
  unfold addArgument addMapping
  dsimp only
  rw [EStateM.bind_ok hview, Arguments.foldlM_addNamed]
  · change EStateM.Result.ok (Arguments.mk [] (Table.ofList entries.entries)) s = _
    rw [Table.ofList_entries]
  · exact entries.nodup

/-- Makes a record of a type from the dict that a record turns into, and compares the two. -/
def rebuilt (call : Caller) (type record : Value) : Run Bool := do
  let method ← getAttr record "_asdict"
  let args ← addArgument (.ofList []) .starStar (← call method (.ofList []))
  compare .eq (← call type args) record

/-- Makes a record of a type from the tuple that a record turns into, and compares the two. -/
def remade (call : Caller) (type record : Value) : Run Bool := do
  let method ← getAttr type "_make"
  let items ← call (.builtin .tuple) (.ofList [record])
  compare .eq (← call method (.ofList [items])) record

section

variable {s : Store} {ref : RecordRef} {type : RecordTypeRef} {name : String} {fields : List String}

/-- A new record with the slots of another one is equal to it, if no float is among them. -/
theorem compare_newRecord (type : RecordTypeRef) {slots : List Value}
    (hslots : (s.getRecord ref).slots = slots) (hfloat : ∀ v ∈ slots, v.FloatFree) :
    ∃ q s', newRecord type slots s = .ok q s' ∧
      compare .eq (.record q) (.record ref) s' = .ok true s' := by
  let s' := (s.newRecord ⟨type, slots⟩).2
  have hnew : newRecord type slots s = .ok ⟨s.records.size⟩ s' := rfl
  have hq : (s'.getRecord ⟨s.records.size⟩).slots = slots :=
    congrArg Record.slots (getRecord_of_newRecord hnew)
  have href : (s'.getRecord ref).slots = slots := by
    by_cases h : ref.index = s.records.size
    · rw [← hq]
      exact congrArg (fun r => (s'.getRecord r).slots) (congrArg RecordRef.mk h : ref = ⟨_⟩)
    · rw [← hslots]
      change ((s.records.push _)[ref.index]?.getD default).slots = _
      rw [Array.getElem?_push, if_neg h]
      rfl
  refine ⟨_, s', hnew, ?_⟩
  have hequal : s'.equal (.record ⟨s.records.size⟩) (.record ref) = some true :=
    Store.equal_records (hq.trans href.symm) (href ▸ hfloat)
  exact equal_of_some hequal

theorem rebuilt_eq (h : s.IsDefined ref type name fields)
    (hfloat : ∀ v ∈ (s.getRecord ref).slots, v.FloatFree) (host : Host) (fuel : Nat) (m : Machine) :
    ∃ s', rebuilt (callIn host (fuel + 1) m) (.recordType type) (.record ref) s = .ok true s' := by
  let table := (s.typeOf ref).named (s.getRecord ref).slots
  let s₁ := s.newIdentity.2
  let s₂ := (s₁.newDict table).2
  have hmethod : getAttr (.record ref) "_asdict" s =
      .ok (.method s.nextIdentity (.record ref .asDict)) s₁ := rfl
  have hasDict : callIn host (fuel + 1) m (.method s.nextIdentity (.record ref .asDict))
      (.ofList []) s₁ = .ok (.dict ⟨s₁.dicts.size⟩) s₂ := rfl
  have hentries : s₂.dictEntries ⟨s₁.dicts.size⟩ = table := by
    unfold s₂ Store.dictEntries Store.newDict
    rw [Array.getElem?_push_size]
    rfl
  have hslots : (s₂.getRecordType type).slotsOf [] table = .ok (s.getRecord ref).slots :=
    h.slotsOf_named
  obtain ⟨q, s₃, hnew, hequal⟩ :=
    compare_newRecord type (show (s₂.getRecord ref).slots = (s.getRecord ref).slots from rfl) hfloat
  have hmake : callIn host (fuel + 1) m (.recordType type) ⟨[], table⟩ s₂ = .ok (.record q) s₃ :=
    EStateM.bind_ok (instantiate_eq_ok.2 ⟨_, hslots, hnew⟩)
  refine ⟨s₃, ?_⟩
  unfold rebuilt
  rw [EStateM.bind_ok hmethod, EStateM.bind_ok hasDict, EStateM.bind_ok (addArgument_dict hentries),
    EStateM.bind_ok hmake, hequal]

theorem remade_eq (h : s.IsDefined ref type name fields)
    (hfloat : ∀ v ∈ (s.getRecord ref).slots, v.FloatFree) (host : Host) (fuel : Nat) (m : Machine) :
    ∃ s', remade (callIn host (fuel + 1) m) (.recordType type) (.record ref) s = .ok true s' := by
  let slots := (s.getRecord ref).slots
  let s₁ := s.newIdentity.2
  let s₂ := s₁.newIdentity.2
  have hmethod : getAttr (.recordType type) "_make" s =
      .ok (.method s.nextIdentity (.recordType type .make)) s₁ := rfl
  have htuple : callIn host (fuel + 1) m (.builtin .tuple) (.ofList [.record ref]) s₁ =
      .ok (.tuple s₁.nextIdentity slots) s₂ := by
    change (items (.record ref) >>= newTuple) s₁ = _
    rw [EStateM.bind_ok (items_of_members rfl)]
    rfl
  have hslots : (s₂.getRecordType type).slotsOfValues slots = .ok slots := by
    unfold RecordType.slotsOfValues
    rw [if_pos]
    exact h.isInstance.slots
  obtain ⟨q, s₃, hnew, hequal⟩ :=
    compare_newRecord type (show (s₂.getRecord ref).slots = (s.getRecord ref).slots from rfl) hfloat
  have hmake : callIn host (fuel + 1) m (.method s.nextIdentity (.recordType type .make))
      (.ofList [.tuple s₁.nextIdentity slots]) s₂ = .ok (.record q) s₃ := by
    have hitems : items (.tuple s₁.nextIdentity slots) s₂ = .ok slots s₂ := items_of_members rfl
    change (do return .record (← recordOf type (← items (.tuple s₁.nextIdentity slots))) : Run
      Value) s₂ = _
    rw [EStateM.bind_ok hitems]
    exact EStateM.bind_ok (recordOf_eq_ok.2 ⟨_, hslots, hnew⟩)
  refine ⟨s₃, ?_⟩
  unfold remade
  rw [EStateM.bind_ok hmethod, EStateM.bind_ok htuple, EStateM.bind_ok hmake, hequal]

end

end Run

/-! ## The theorem -/

namespace RecordType

variable {name : String} {names : List String} {options : DefineOptions}

/-- A type that was defined is what its names make, and nothing is wrong with them. -/
theorem isOf_of_define (host : Host) {fuel : Nat} (hfuel : 0 < fuel) (hfew : names.length < 2 ^ 63)
    {s s' : Store} {r : RecordTypeRef}
    (hdefine : Define.define host fuel options name names s = .ok r s') :
    let fields := if options.rename then Fields.rename names else names
    Fields.fault? name fields options.rename = none ∧ (s'.getRecordType r).IsOf name fields := by
  intro fields
  cases hfault : Fields.fault? name fields options.rename with
  | some what =>
    have hrefused : Define.define host fuel options name names s = .error (.naming what) s := by
      unfold Define.define
      rw [show (if options.rename then Fields.rename names else names) = fields from rfl, hfault]
      rfl
    rw [hdefine] at hrefused
    cases hrefused
  | none =>
    obtain ⟨r', s'', hdefine', htype⟩ := define_ok host hfuel options rfl hfew hfault s
    rw [hdefine] at hdefine'
    cases hdefine'
    exact ⟨rfl, htype⟩

end RecordType

/-- All looks at a record of a defined type agree.  Let a type be defined from names, and let a
record of it be changed in whatever ways, together with others.  Then

* a field has one value, whether it is looked at by its name, by its place from the start or from
  the end, among the items of the record, in the tuple or in the dict that the record is turned
  into;
* fields are replaced all at once or not at all: the names that are no fields are refused, and
  otherwise the slots of the names change and nothing else does;
* if the record holds no floats, then the records that the type makes from its dict and from its
  tuple are equal to it. -/
theorem RecordType.defined_records_agree (host : Host) {fuel : Nat} (hfuel : 0 < fuel)
    (options : DefineOptions) (name : String) {names : List String} (hfew : names.length < 2 ^ 63)
    {s s' : Store} {type : RecordTypeRef}
    (hdefine : Define.define host fuel options name names s = .ok type s')
    {u : Store} (hsame : { u.getRecordType type with source? := (s'.getRecordType type).source? } =
      s'.getRecordType type)
    {ref : RecordRef} (href : u.IsInstance ref type) (changes : List (RecordRef × RecordChange)) :
    let fields := if options.rename then Fields.rename names else names
    let w := u.changedAll changes
    let slots := (w.getRecord ref).slots
    w.Shows ref fields slots ∧ (∀ updates, w.ReplacesAtOnce ref fields slots updates) ∧
      ((∀ v ∈ slots, ∀ x, ¬ w.Contains v (.float x)) → ∀ (host : Host) (fuel : Nat) (m : Machine),
        (∃ w', Run.rebuilt (callIn host (fuel + 1) m) (.recordType type) (.record ref) w =
          .ok true w') ∧
        ∃ w', Run.remade (callIn host (fuel + 1) m) (.recordType type) (.record ref) w =
        .ok true w') := by
  intro fields w slots
  obtain ⟨hfault, htype⟩ := isOf_of_define host hfuel hfew hdefine
  have hnoMethod : ∀ x ∈ fields, RecordMethod.ofName? x = none := by
    intro x hx
    have hrename : options.rename = true → ∃ names, fields = Fields.rename names :=
      fun h => ⟨names, if_pos h⟩
    refine List.find?_eq_none.2 fun op _ heq => ?_
    refine Fields.ne_of_fault hfault hrename hx (y := op.name) ?_ ?_ (eq_of_beq heq).symm
    · cases op <;> decide
    · cases op <;> decide +kernel
  have hlength : fields.length = names.length := by
    unfold fields
    split
    · exact Fields.length_rename names
    · rfl
  rw [← hsame] at htype
  have hisOf : (u.getRecordType type).IsOf name fields :=
    ⟨htype.typeName, htype.fieldNames, htype.accessors, htype.format, htype.doc, htype.attrs⟩
  have hdefined : u.IsDefined ref type name fields :=
    ⟨hisOf, href, (Fields.fault?_eq_none_iff.1 hfault).2.1, hlength ▸ hfew, hnoMethod⟩
  have hw : w.IsDefined ref type name fields :=
    hdefined.sameRecords (u.sameRecords_changedAll changes)
  refine ⟨hw.shows, hw.replacesAtOnce, fun hfloat host fuel m => ?_⟩
  have hfree : ∀ v ∈ slots, v.FloatFree := fun v hv => Value.floatFree_of_forall (hfloat v hv)
  exact ⟨Run.rebuilt_eq hw hfree host fuel m, Run.remade_eq hw hfree host fuel m⟩

/-- A point after one of its slots has been changed. -/
theorem RecordType.defined_point_agrees :
    ["x", "y"].length < 2 ^ 63 ∧ ∃ type s',
      Define.define .bare 1 ⟨false, false, false⟩ "Point" ["x", "y"] .empty = .ok type s' ∧
      ∃ ref u, Run.instantiate type (.ofList [.int 1, .int 2]) s' = .ok ref u ∧
      u.IsInstance ref type ∧
        let w := u.changedAll [(ref, .slot 0 (.int 3))]
        w.Shows ref ["x", "y"] [.int 3, .int 2] ∧
        (∀ v ∈ [Value.int 3, .int 2], ∀ x, ¬ w.Contains v (.float x)) ∧
        ∃ w', Run.rebuilt (callIn .bare 1 .captured) (.recordType type) (.record ref) w =
          .ok true w' := by
  have hfew : ["x", "y"].length < 2 ^ 63 := by decide
  have hvalid : Fields.fault? "Point" ["x", "y"] false = none := by decide
  obtain ⟨type, s', hdefine, htype⟩ := define_ok .bare (show 0 < 1 by decide) ⟨false, false, false⟩
    rfl hfew hvalid .empty
  have hslots : (s'.getRecordType type).slotsOf [.int 1, .int 2] .empty = .ok [.int 1, .int 2] := by
    unfold slotsOf
    rw [arity, htype.fieldNames]
    rfl
  let u := (s'.newRecord ⟨type, [.int 1, .int 2]⟩).2
  let ref : RecordRef := ⟨s'.records.size⟩
  have hmake : Run.instantiate type (.ofList [.int 1, .int 2]) s' = .ok ref u :=
    Run.instantiate_eq_ok.2 ⟨_, hslots, rfl⟩
  have hget : (u.getRecord ref).slots = [.int 1, .int 2] :=
    congrArg Record.slots (Run.getRecord_of_newRecord (s := s') rfl)
  have href := Run.isInstance_instantiate hmake
  let w := u.changedAll [(ref, .slot 0 (.int 3))]
  have hw : (w.getRecord ref).slots = [.int 3, .int 2] := by
    have hset : Run.setSlot ref 0 (.int 3) u = .ok () (u.modifySlots ref (·.set 0 (.int 3))) := by
      have hview : Run.view (·.getRecord ref) u = .ok (u.getRecord ref) u := rfl
      unfold Run.setSlot
      rw [EStateM.bind_ok hview, hget]
      rfl
    have hw : w = u.modifySlots ref fun _ => [.int 3, .int 2] := by
      have hrun : (RecordChange.slot 0 (.int 3)).run ref u = .ok () _ := hset
      show u.changed ref (.slot 0 (.int 3)) = _
      rw [Store.changed, hrun, Store.modifySlots_eq, hget]
      rfl
    rw [hw, Store.getRecord_modifySlots (by rw [hget]; rfl), if_pos rfl]
  obtain ⟨hshows, -, hagain⟩ := defined_records_agree .bare (show 0 < 1 by decide)
    ⟨false, false, false⟩ "Point" hfew hdefine (u := u) rfl href [(ref, .slot 0 (.int 3))]
  rw [hw] at hshows hagain
  have hfloat : ∀ v ∈ [Value.int 3, .int 2], ∀ x, ¬ w.Contains v (.float x) := by
    have hint (n : Int64) (x : Binary64) : ¬ w.Contains (.int n) (.float x) := by
      intro h
      rcases h.cases_head with heq | ⟨v, hv, -⟩
      · cases heq
      · cases hv
    simp only [List.forall_mem_cons]
    exact ⟨hint 3, hint 2, by simp⟩
  exact ⟨hfew, type, s', hdefine, ref, u, hmake, href, hshows, hfloat,
    (hagain hfloat .bare 0 .captured).1⟩

end StagedScript
