import StagedScript.Proofs.Records.Defined
import StagedScript.Proofs.Basic
import StagedScript.Proofs.Records.Slots
import StagedScript.Proofs.Showing.Reaching
import StagedScript.Run.Record

/-!
# Defining record types is exact

Names that are accepted define a type that is what they say, and its records have the text that they
say.
-/

/-!
## The text of a record

A record that does not hold itself is shown with every field by its name.
-/

namespace StagedScript

/-! ### Filling the template -/

namespace Percent

variable {cs rest : List Char} {a : Argument} {args : List Argument}

/-- What is no conversion stays as it is. -/
theorem fill_plain (hcs : ∀ c ∈ cs, c ≠ '%') :
    fill (cs ++ rest) args = (fill rest args).map (cs ++ ·) := by
  induction cs with
  | nil =>
    rw [List.nil_append]
    cases fill rest args <;> rfl
  | cons c cs ih =>
    have hc : c ≠ '%' := hcs c (by simp)
    have hfill : fill (c :: (cs ++ rest)) args = (fill (cs ++ rest) args).map (c :: ·) := by
      rw [fill]
      all_goals
        intros
        simp_all
    rw [List.cons_append, hfill, ih fun d hd => hcs d (by simp [hd])]
    cases fill rest args <;> rfl

theorem fill_repr :
    fill ('%' :: 'r' :: rest) (a :: args) = (fill rest args).map ((a.repr ()).toList ++ ·) := by
  rw [fill]
  · cases fill rest args <;> rfl
  · simp

/-- The marks behind the first field. -/
theorem fill_more {xs : List String} (hxs : ∀ x ∈ xs, ∀ c ∈ x.toList, c ≠ '%')
    (hargs : args.length = xs.length) :
    fill (xs.flatMap (fun x => ", ".toList ++ (x ++ "=%r").toList) ++ [')']) args =
      .ok ((List.zipWith (fun x (a : Argument) => ", ".toList ++ (x ++ "=" ++ a.repr ()).toList)
        xs args).flatten ++ [')']) := by
  induction xs generalizing args with
  | nil =>
    obtain rfl := List.eq_nil_of_length_eq_zero hargs
    rfl
  | cons x xs ih =>
    obtain ⟨a, args, rfl⟩ := List.exists_cons_of_length_eq_add_one hargs
    have hplain : ∀ c ∈ ", ".toList ++ (x.toList ++ ['=']), c ≠ '%' := by
      simp only [List.forall_mem_append]
      exact ⟨by simp, hxs x (by simp), by simp⟩
    have htext : ((x :: xs).flatMap (fun x => ", ".toList ++ (x ++ "=%r").toList) ++ [')']) =
        (", ".toList ++ (x.toList ++ ['='])) ++ ('%' :: 'r' ::
          (xs.flatMap (fun x => ", ".toList ++ (x ++ "=%r").toList) ++ [')'])) := by simp
    rw [htext, fill_plain hplain, fill_repr, ih (fun y hy => hxs y (by simp [hy]))
      (by simpa using hargs)]
    simp [Except.map]

end Percent

namespace RecordType

variable {name : String} {fields : List String}

/-- The template of a class shows every field by its name. -/
theorem fill_plainFormat {args : List Percent.Argument}
    (hfields : ∀ x ∈ fields, ∀ c ∈ x.toList, c ≠ '%') (hargs : args.length = fields.length) :
    Percent.fill (plainFormat fields).toList args = .ok ("(" ++ ", ".intercalate
      (List.zipWith (fun x (a : Percent.Argument) => x ++ "=" ++ a.repr ()) fields args) ++
        ")").toList := by
  cases fields with
  | nil =>
    obtain rfl := List.eq_nil_of_length_eq_zero hargs
    rfl
  | cons x xs =>
    obtain ⟨a, args, rfl⟩ := List.exists_cons_of_length_eq_add_one hargs
    have hplain : ∀ c ∈ ['('] ++ (x.toList ++ ['=']), c ≠ '%' := by
      simp only [List.forall_mem_append]
      exact ⟨by simp, hfields x (by simp), by simp⟩
    have htext : (plainFormat (x :: xs)).toList = (['('] ++ (x.toList ++ ['='])) ++ ('%' :: 'r' ::
        (xs.flatMap (fun x => ", ".toList ++ (x ++ "=%r").toList) ++ [')'])) := by
      simp only [plainFormat, String.toList_append, String.toList_intercalate, List.map_cons,
        intercalate_eq_append, List.map_map, List.flatMap_map]
      simp
    have hmore := Percent.fill_more (fun y (hy : y ∈ xs) => hfields y (by simp [hy]))
      (by simpa using hargs)
    rw [htext, Percent.fill_plain hplain, Percent.fill_repr, hmore]
    simp only [Except.map, List.zipWith_cons_cons, String.toList_append, String.toList_intercalate,
      List.map_cons, intercalate_eq_append]
    simp [List.map_zipWith, List.flatMap]

end RecordType

/-! ### Records -/

/-- The record is one of the type: it has a slot for every field. -/
structure Store.IsInstance (s : Store) (ref : RecordRef) (type : RecordTypeRef) : Prop where
  ofType : (s.getRecord ref).type = type
  slots : (s.getRecord ref).slots.length = (s.getRecordType type).arity

/-- The record is among what its slots hold. -/
def Store.HoldsItself (s : Store) (ref : RecordRef) : Prop :=
  ∃ v ∈ (s.getRecord ref).slots, s.Reaches v (.record ref)

namespace Store

variable {s : Store} {ref : RecordRef}

/-- The text of a record fills the template of its type with what its slots hold. -/
theorem repr_record (hself : ¬ s.HoldsItself ref) :
    s.repr (.record ref) = Shape.recordText (s.typeOf ref).name (s.typeOf ref).format
      ((s.getRecord ref).slots.map fun v => (s.shape v).shown []) := by
  obtain ⟨depth, hdepth, hshape⟩ := s.exists_shape_container
  have hslots : ∀ v ∈ s.held (.record ref),
      (v.unfold s (s.containerShape depth)).shown [.record ref] = (s.shape v).shown [] := by
    -- The record is not met inside its slots, so they are shown as if they stood alone.
    intro v hv
    have hlt :=
      others_lt (mem_everyContainer_of_mem_held hv) (List.not_mem_nil (a := Container.record ref))
    have hle := s.others_le []
    have hpast := s.containers_lt_shapeDepth
    refine shown_eq (by omega) (by omega) ?_
    intro c hc
    constructor
    · intro hmem
      rw [List.mem_singleton.1 hmem] at hc
      exact absurd ⟨v, hv, hc⟩ hself
    · intro hmem
      cases hmem
  change (s.shape (Container.record ref).value).reprInside [] = _
  rw [hshape, reprInside_containerShape, if_neg List.not_mem_nil]
  exact containerText_congr hslots

end Store

/-- A record of a defined type that does not hold itself is shown with every field by its name. -/
theorem RecordType.IsOf.repr_instance {name : String} {fields : List String} {s : Store}
    {ref : RecordRef} {type : RecordTypeRef} (htype : (s.getRecordType type).IsOf name fields)
    (hfields : ∀ x ∈ fields, Word.isName x = true) (href : s.IsInstance ref type)
    (hself : ¬ s.HoldsItself ref) :
    s.repr (.record ref) = name ++ "(" ++ ", ".intercalate
      (List.zipWith (fun x v => x ++ "=" ++ s.repr v) fields (s.getRecord ref).slots) ++ ")" := by
  have htypeOf : s.typeOf ref = s.getRecordType type := by rw [Store.typeOf, href.ofType]
  have hplain : ∀ x ∈ fields, ∀ c ∈ x.toList, c ≠ '%' := by
    rintro x hx c hc rfl
    have hpart := (Word.isPart_of_isIdentifier (Word.isIdentifier_of_isName (hfields x hx))).2 _ hc
    cases hpart
  have hlength : ((s.getRecord ref).slots.map fun v => (s.shape v).shown []).length =
      fields.length := by
    rw [List.length_map, href.slots, RecordType.arity, htype.fieldNames]
  rw [Store.repr_record hself, htypeOf, htype.format, htype.typeName, Shape.recordText,
    fill_plainFormat hplain hlength]
  dsimp only
  rw [String.ofList_toList, List.zipWith_map_right]
  simp only [← String.append_assoc]
  rfl

/-! ## Instances -/

namespace RecordType

variable {t : RecordType}

theorem length_slotsOf {args slots : List Value} {named : Table Value}
    (h : t.slotsOf args named = .ok slots) : slots.length = t.arity := by
  rw [slotsOf_eq] at h
  split at h
  · next hgot =>
    obtain ⟨-, -, h⟩ := Except.bind_eq_ok.1 h
    cases h
    rw [length_fill, List.length_append, List.length_replicate]
    exact hgot
  · cases h

end RecordType

namespace Run

variable {s s' : Store} {ref : RecordRef} {type : RecordTypeRef}

/-- What is made has the type and the slots. -/
theorem getRecord_of_newRecord {slots : List Value} (h : newRecord type slots s = .ok ref s') :
    s'.getRecord ref = ⟨type, slots⟩ := by
  cases h
  change ((s.records.push _)[s.records.size]?).getD _ = _
  rw [Array.getElem?_push, if_pos rfl]
  rfl

theorem isInstance_newRecord {slots : List Value}
    (hslots : slots.length = (s.getRecordType type).arity)
    (h : newRecord type slots s = .ok ref s') : s'.IsInstance ref type := by
  have hget := getRecord_of_newRecord h
  cases h
  exact ⟨congrArg Record.type hget, (congrArg (·.slots.length) hget).trans hslots⟩

/-- A record is made if its slots can be. -/
theorem newRecord_ofExcept_eq_ok {x : Except Fault (List Value)} :
    (do newRecord type (← ofExcept x)) s = .ok ref s' ↔
      ∃ slots, x = .ok slots ∧ newRecord type slots s = .ok ref s' := by
  rw [EStateM.bind_eq_ok]
  simp only [ofExcept_eq_ok]
  constructor
  · rintro ⟨slots, _, ⟨hslots, rfl⟩, hnew⟩
    exact ⟨slots, hslots, hnew⟩
  · rintro ⟨slots, hslots, hnew⟩
    exact ⟨slots, s, ⟨hslots, rfl⟩, hnew⟩

theorem instantiate_eq_ok {args : Arguments} : instantiate type args s = .ok ref s' ↔
    ∃ slots, (s.getRecordType type).slotsOf args.positional args.named = .ok slots ∧
      newRecord type slots s = .ok ref s' :=
  newRecord_ofExcept_eq_ok

theorem recordOf_eq_ok {values : List Value} : recordOf type values s = .ok ref s' ↔
    ∃ slots, (s.getRecordType type).slotsOfValues values = .ok slots ∧
      newRecord type slots s = .ok ref s' :=
  newRecord_ofExcept_eq_ok

/-- What a type makes from arguments is a record of the type. -/
theorem isInstance_instantiate {args : Arguments} (h : instantiate type args s = .ok ref s') :
    s'.IsInstance ref type := by
  obtain ⟨slots, hslots, hnew⟩ := instantiate_eq_ok.1 h
  exact isInstance_newRecord (RecordType.length_slotsOf hslots) hnew

end Run

/-! ## The theorem -/

namespace RecordType

variable {name : String} {fields : List String} {t : RecordType}

/-- Every field has the accessor of its slot, and nothing else has one. -/
theorem IsOf.get?_accessors (h : t.IsOf name fields) :
    t.accessors.keys = fields ∧
      ∀ i (hi : i < fields.length), t.accessors.get? fields[i] = some i := by
  refine ⟨?_, fun i hi => ?_⟩
  · unfold Table.keys Entries.keys
    rw [h.accessors]
    simp
  · refine Table.get?_of_mem (e := (fields[i], i)) ?_
    rw [h.accessors, List.mem_zipIdx_iff_getElem?]
    exact List.getElem?_eq_getElem hi

/-- Names without a fault define a record type that is exactly what they say: it has the name and
the fields in order, one accessor for each of them, no other attribute, and its documentation.  As
long as the type is what it is then, every record of it that does not hold itself is shown with
every field by its name. -/
theorem define_exact (host : Host) {fuel : Nat} (hfuel : 0 < fuel) (options : DefineOptions)
    (name : String) {names : List String} (hfew : names.length < 2 ^ 63) (s : Store) :
    let fields := if options.rename then Fields.rename names else names
    Fields.fault? name fields options.rename = none →
    ∃ r s', Define.define host fuel options name names s = .ok r s' ∧
      let t := s'.getRecordType r
      t.name = name ∧ t.fields = fields ∧ t.arity = fields.length ∧
      t.accessors.keys = fields ∧
      (∀ i (hi : i < fields.length), t.accessors.get? fields[i] = some i) ∧
      t.attrs.keys = [] ∧
      t.doc? = some (name ++ "(" ++ ", ".intercalate fields ++ ")") ∧
      ∀ (u : Store) (ref : RecordRef), { u.getRecordType r with source? := t.source? } = t →
        u.IsInstance ref r → ¬ u.HoldsItself ref →
        u.repr (.record ref) = name ++ "(" ++ ", ".intercalate
          (List.zipWith (fun x v => x ++ "=" ++ u.repr v) fields (u.getRecord ref).slots) ++
          ")" := by
  intro fields hvalid
  have hnames := (Fields.fault?_eq_none_iff.1 hvalid).1
  obtain ⟨r, s', hdefine, htype⟩ := define_ok host hfuel options rfl hfew hvalid s
  obtain ⟨hkeys, hget⟩ := htype.get?_accessors
  refine ⟨r, s', hdefine, htype.typeName, htype.fieldNames, ?_, hkeys, hget, ?_, htype.doc, ?_⟩
  · rw [arity, htype.fieldNames]
  · rw [Table.keys, htype.attrs]
    rfl
  · intro u ref hsame href hself
    rw [← hsame] at htype
    have htype' : (u.getRecordType r).IsOf name fields :=
      ⟨htype.typeName, htype.fieldNames, htype.accessors, htype.format, htype.doc, htype.attrs⟩
    exact htype'.repr_instance (fun x hx => hnames x (by simp [hx])) href hself

/-- A type of points, and the text of one of them. -/
theorem define_point :
    Fields.fault? "Point" ["x", "y"] false = none ∧
    ∃ r s', Define.define .bare 1 ⟨false, false, false⟩ "Point" ["x", "y"] .empty = .ok r s' ∧
      ∃ ref u, Run.instantiate r (.ofList [.int 1, .int 2]) s' = .ok ref u ∧
        u.repr (.record ref) = "Point(x=1, y=2)" := by
  have hvalid : Fields.fault? "Point" ["x", "y"] false = none := by decide
  obtain ⟨r, s', hdefine, hname, hfields, harity, -, -, -, -, hrepr⟩ :=
    define_exact .bare (show 0 < 1 by decide) ⟨false, false, false⟩ "Point"
      (by decide) .empty hvalid
  refine ⟨hvalid, r, s', hdefine, ?_⟩
  have hslots : (s'.getRecordType r).slotsOf [.int 1, .int 2] .empty = .ok [.int 1, .int 2] := by
    unfold slotsOf
    rw [harity]
    rfl
  let u := (s'.newRecord ⟨r, [.int 1, .int 2]⟩).2
  have hmake : Run.instantiate r (.ofList [.int 1, .int 2]) s' = .ok ⟨s'.records.size⟩ u :=
    Run.instantiate_eq_ok.2 ⟨_, hslots, rfl⟩
  refine ⟨_, u, hmake, ?_⟩
  have hget : u.getRecord ⟨s'.records.size⟩ = ⟨r, [.int 1, .int 2]⟩ :=
    Run.getRecord_of_newRecord (s := s') rfl
  have hself : ¬ u.HoldsItself ⟨s'.records.size⟩ := by
    rintro ⟨v, hv, hreach⟩
    rw [hget] at hv
    have hint (n : Int64) : ¬ u.Reaches (.int n) (.record ⟨s'.records.size⟩) := by
      intro hreach
      rcases hreach.holder with ⟨d, hd⟩ | ⟨i, items, hitems⟩
      · cases d <;> cases hd
      · cases hitems
    rcases List.mem_cons.1 hv with rfl | hv
    · exact hint 1 hreach
    · rw [List.mem_singleton.1 hv] at hreach
      exact hint 2 hreach
  have hshown := hrepr u _ rfl (Run.isInstance_instantiate hmake) hself
  rw [hshown, hget]
  rfl

end RecordType

end StagedScript
