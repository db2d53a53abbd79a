import StagedScript.Proofs.Programs
import StagedScript.Proofs.Records.Class
import StagedScript.Proofs.Records.Names

/-!
# Defined record types

The text of a record class is a program, and executing it binds the type to its name.
-/

/-!
## Names that are accepted

Names without a fault make a record type: nothing in the text of the class is taken for one of them.
-/

namespace StagedScript

namespace Fields

variable {name : String} {fields : List String} {renamed : Bool}

/-- No name of a field has an underscore in front, unless it is followed by a number. -/
theorem ne_of_fault (h : fault? name fields renamed = none)
    (hrename : renamed = true → ∃ names, fields = rename names) {x : String} (hx : x ∈ fields)
    {y : String} (hunderscored : underscored y = true)
    (hdigit : (y.toList[1]?).any Char.isDigit = false) : x ≠ y := by
  rintro rfl
  cases renamed with
  | false =>
    have hplain := (fault?_eq_none_iff.1 h).2.2 rfl x hx
    rw [hunderscored] at hplain
    cases hplain
  | true =>
    obtain ⟨names, rfl⟩ := hrename rfl
    obtain ⟨i, hi⟩ := List.mem_iff_getElem?.1 hx
    rcases kept_or_numbered hi with ⟨hvalid, -, -⟩ | rfl
    · have hplain := (isValid_iff.1 hvalid).2
      rw [hunderscored] at hplain
      cases hplain
    · exact numbered_ne i hdigit rfl

/-- Names without a fault make a record type. -/
theorem defines_of_fault (h : fault? name fields renamed = none)
    (hrename : renamed = true → ∃ names, fields = rename names) (hfew : fields.length < 2 ^ 63) :
    RecordType.Defines name fields := by
  obtain ⟨hwords, hnodup, -⟩ := fault?_eq_none_iff.1 h
  obtain ⟨hname, hfields⟩ := List.forall_mem_cons.1 hwords
  have hunderscored : ∀ y ∈ "_slot" :: RecordType.reserved, underscored y = true := by decide
  have hdigit : ∀ y ∈ "_slot" :: RecordType.reserved, (y.toList[1]?).any Char.isDigit = false := by
    decide +kernel
  refine ⟨hname, hfields, hnodup, fun x hx hmem => ?_, hfew⟩
  exact ne_of_fault h hrename hx (hunderscored x hmem) (hdigit x hmem) rfl

end Fields

namespace RecordType

variable {name : String} {fields : List String}

theorem bindable_slots {bound : List String} {xs : List (String × Nat)}
    (hbound : (bound ++ xs.map Prod.fst).Nodup) (hslot : "_slot" ∉ bound ++ xs.map Prod.fst)
    (hfits : ∀ x ∈ xs, StagedScript.fits x.2 = true) :
    Bindable bound (xs.map fun (x, i) => (x, .slot i)) := by
  induction xs generalizing bound with
  | nil => trivial
  | cons x xs ih =>
    obtain ⟨x, i⟩ := x
    rw [List.map_cons, List.append_cons] at hbound hslot
    refine ⟨fun hx => ?_, fun hx => hslot (by simp [hx]), by rintro y ⟨⟩,
      hfits (x, i) (by simp), ?_⟩
    · have hfirst := (List.nodup_append.1 (List.nodup_append.1 hbound).1).2.2
      exact hfirst x hx x (by simp) rfl
    · exact ih hbound hslot fun y hy => hfits y (by simp [hy])

/-- Nothing that a class needs is bound before it is needed. -/
theorem bindable_bindings (h : Defines name fields) : Bindable [] (bindings fields) := by
  have hmap : fields.zipIdx.map Prod.fst = fields := by simp
  have hdistinct : (["_fields", "_arity", "_repr_fmt", "_mapping"] ++ fields).Nodup := by
    refine List.nodup_append.2 ⟨by decide, h.distinct, ?_⟩
    rintro x hx y hy rfl
    exact h.unreserved x hy (List.mem_cons_of_mem _ hx)
  have hslot : "_slot" ∉ ["_fields", "_arity", "_repr_fmt", "_mapping"] ++ fields := by
    rw [List.mem_append]
    rintro (hx | hx)
    · revert hx
      decide
    · exact h.unreserved _ hx (by simp)
  have hslots : Bindable ["_fields", "_arity", "_repr_fmt", "_mapping"]
      (fields.zipIdx.map fun (x, i) => (x, .slot i)) := by
    refine bindable_slots (by rwa [hmap]) (by rwa [hmap]) fun x hx => ?_
    have hlt : x.2 < fields.length := by simpa using List.snd_lt_of_mem_zipIdx hx
    exact fits_of_le (Nat.lt_trans hlt h.few)
  refine ⟨by simp, by simp, by rintro x ⟨⟩, fun x hx =>
    Word.isIdentifier_of_isName (h.named x hx), ?_⟩
  refine ⟨by simp, by simp, by rintro x ⟨⟩, fits_of_le h.few, ?_⟩
  refine ⟨by simp, by simp, by rintro x ⟨⟩, plain_plainFormat h, ?_⟩
  refine ⟨by simp, by simp, ?_, show Word.isName "OrderedDict" = true by decide, hslots⟩
  rintro x ⟨⟩
  exact ⟨rfl, by simp⟩

end RecordType

end StagedScript

namespace StagedScript.RecordType

variable {name : String} {fields : List String}

/-- The type is what a name and fields make, with an accessor for every field and nothing else. -/
structure IsOf (t : RecordType) (name : String) (fields : List String) : Prop where
  typeName : t.name = name
  fieldNames : t.fields = fields
  accessors : t.accessors.entries = fields.zipIdx
  format : t.format = plainFormat fields
  doc : t.doc? = some (docText name fields)
  attrs : t.attrs.entries = []

theorem IsOf.keep {t : RecordType} (h : t.IsOf name fields) (source : String) :
    (t.keep source).IsOf name fields :=
  ⟨h.typeName, h.fieldNames, h.accessors, h.format, h.doc, h.attrs⟩

section

variable (host : Host) (fuel : Nat) (m : Machine) {f : Frame} {s : Store} {rounds : Nat}

/-- The class is executed where the builtins for record classes are bound. -/
theorem exec_class (h : Defines name fields) {span spanBase spanDoc spanText : Span}
    {rest : List Stmt} (hrest : List.Forall₂ Binds (bindings fields) rest)
    (hcaptured : f.captured? = none) (hlocals : f.locals = f.globals)
    (hglobals : s.namespaces[f.globals.index]? = some Define.ambient) :
    ∃ r s', Run.exec (callIn host (fuel + 1) m) rounds f
        (.class_ span name (some (.name spanBase "_slots"))
          (.expr spanDoc (.str spanText (docText name fields)) :: rest)) s = .ok .next s' ∧
      (s'.bindings f.globals).get? name = some (.recordType r) ∧
      (s'.getRecordType r).IsOf name fields ∧ r.index < s'.recordTypes.size := by
  have hbase : Run.checkBase (callIn host (fuel + 1) m) f name (some (.name spanBase "_slots")) s =
      .ok () s := by
    have hfind : f.find? s "_slots" = some (.builtin .slots) := by
      unfold Frame.find? Store.bindings
      rw [hlocals, hglobals]
      rfl
    unfold Run.checkBase
    dsimp only
    rw [EStateM.bind_ok (by unfold Run.eval; exact Run.lookup_eq hfind)]
    rfl
  -- The body is executed in a namespace of its own, behind the one with the builtins.
  let g : Frame := f.inside (s.newNamespace .empty).1
  have hlt : f.globals.index < s.namespaces.size := (Array.getElem?_eq_some_iff.1 hglobals).1
  have hinside : (s.newNamespace .empty).2.InClass g .empty := by
    refine ⟨hcaptured, ?_, ?_, ?_⟩
    · change (s.namespaces.push _)[f.globals.index]? = _
      rw [Array.getElem?_push, if_neg (Nat.ne_of_lt hlt), hglobals]
    · change (s.namespaces.push _)[s.namespaces.size]? = _
      rw [Array.getElem?_push, if_pos rfl]
    · exact (Nat.ne_of_lt hlt).symm
  obtain ⟨s₂, body, es, hexec, hclass, hentries, hall, -⟩ := Run.execAll_binds host fuel m
    hrest (show Bindable (Table.empty : Table Value).keys _ from bindable_bindings h)
    (hinside.fresh (s.nextIdentity + 1))
  have hbody : Run.execAll (callIn host (fuel + 1) m) rounds g
      (.expr spanDoc (.str spanText (docText name fields)) :: rest) (s.newNamespace .empty).2 =
        .ok .next s₂ := by
    unfold Run.execAll
    have hdoc : Run.locating (fun _ => g.location spanDoc)
        (Run.exec (callIn host (fuel + 1) m) rounds g
          (.expr spanDoc (.str spanText (docText name fields)))) (s.newNamespace .empty).2 =
        .ok .next { (s.newNamespace .empty).2 with nextIdentity := s.nextIdentity + 1 } := by
      unfold Run.locating Run.exec Run.eval
      rfl
    exact (EStateM.bind_ok hdoc).trans hexec
  rw [← List.nil_append es] at hall
  have hes : body.entries = [] ++ es := hentries
  rw [← hes] at hall
  obtain ⟨accessors, attrs, htype, haccessors, hattrs⟩ := ofClass_eq (s := s₂)
    (some (docText name fields)) (fun x hx hmem => h.unreserved x hx (List.mem_cons_of_mem _ hmem))
    h.few hall
  let t : RecordType :=
    ⟨name, fields, accessors, plainFormat fields, some (docText name fields), attrs, none⟩
  let s₃ : Store := (s₂.newRecordType t).2
  have hnew : Run.newRecordType name (some (docText name fields)) body s₂ =
      .ok (.recordType ⟨s₂.recordTypes.size⟩) s₃ := by
    unfold Run.newRecordType
    change (Run.ofExcept (ofClass s₂ name body _) >>= _) s₂ = _
    rw [htype]
    rfl
  refine ⟨⟨s₂.recordTypes.size⟩, s₃.bind f.locals name (.recordType ⟨s₂.recordTypes.size⟩),
    ?_, ?_, ?_, ?_⟩
  · unfold Run.exec
    rw [EStateM.bind_ok hbase]
    have hmake : Run.make (·.newNamespace .empty) s =
      .ok (s.newNamespace .empty).1 (s.newNamespace .empty).2 := rfl
    have hview : Run.view (·.bindings (s.newNamespace .empty).1) s₂ = .ok body s₂ := by
      change EStateM.Result.ok (s₂.bindings g.locals) s₂ = _
      unfold Store.bindings
      rw [hclass.locals]
      rfl
    rw [EStateM.bind_ok hmake, EStateM.bind_ok hbody]
    dsimp only
    rw [EStateM.bind_ok hview, docstring?, EStateM.bind_ok hnew]
    rfl
  · have hglobals₃ : s₃.namespaces[f.globals.index]? = some Define.ambient := hclass.globals
    unfold Store.bindings
    change Table.get? (((s₃.namespaces.modify f.locals.index _)[f.globals.index]?).getD _) _ = _
    rw [hlocals, Array.getElem?_modify, if_pos rfl, hglobals₃]
    change (Define.ambient.insert name _).get? name = _
    rw [Table.get?_insert, if_pos rfl]
  · have hget : Store.getRecordType (s₃.bind f.locals name (.recordType ⟨s₂.recordTypes.size⟩))
        ⟨s₂.recordTypes.size⟩ = t := by
      change ((s₂.recordTypes.push t)[s₂.recordTypes.size]?).getD _ = _
      rw [Array.getElem?_push, if_pos rfl]
      rfl
    rw [hget]
    exact ⟨rfl, rfl, haccessors, rfl, rfl, hattrs⟩
  · change s₂.recordTypes.size < (s₂.recordTypes.push t).size
    rw [Array.size_push]
    exact Nat.lt_succ_self _

end

theorem misplacedIn?_binds {bs : List (String × ClassItem)} {ss : List Stmt}
    (h : List.Forall₂ Binds bs ss) (c : Surroundings) : Stmt.misplacedIn? c ss = none := by
  induction h with
  | nil => rfl
  | cons hb _ ih =>
    obtain ⟨span, spanName, e, rfl, -⟩ := hb
    exact ih

/-- The text of a class is executed where the builtins for record classes are bound. -/
theorem execute_source (host : Host) (fuel : Nat) (h : Defines name fields) (label : String)
    {s : Store} {g : NamespaceRef} (hg : s.namespaces[g.index]? = some Define.ambient) :
    ∃ r s', Generate.execute host (fuel + 1) ("\n".intercalate (sourceLines name fields)) label g
      s =
        .ok () s' ∧
      (s'.bindings g).get? name = some (.recordType r) ∧ (s'.getRecordType r).IsOf name fields ∧
      r.index < s'.recordTypes.size := by
  obtain ⟨span, spanBase, spanDoc, spanText, rest, hparse, hrest⟩ := parse_source h label
  have hplaced : Stmt.misplacedIn? .top [.class_ span name (some (.name spanBase "_slots"))
      (.expr spanDoc (.str spanText (docText name fields)) :: rest)] = none := by
    simp only [Stmt.misplacedIn?, Stmt.misplaced?, misplacedIn?_binds hrest]
    rfl
  obtain ⟨r, s', hexec, hname, htype, hlt⟩ := exec_class host fuel .fresh
    (f := ⟨g, g, none, ⟨label, "\n".intercalate (sourceLines name fields)⟩, 0⟩)
    h hrest rfl rfl hg
  refine ⟨r, s', ?_, hname, htype, hlt⟩
  unfold Generate.execute
  rw [Program.ofText_of_parse hparse hplaced]
  dsimp only
  rw [@Program.run_of_exec _ _ _ _ _ hplaced _ none _ _ hexec]

/-- Names without a fault define a record type that is exactly what they make. -/
theorem define_ok (host : Host) {fuel : Nat} (hfuel : 0 < fuel) (options : DefineOptions)
    {names : List String} (hfields : fields = if options.rename then Fields.rename names else names)
    (hfew : names.length < 2 ^ 63) (hvalid : Fields.fault? name fields options.rename = none)
    (s : Store) :
    ∃ r s', Define.define host fuel options name names s = .ok r s' ∧
      (s'.getRecordType r).IsOf name fields := by
  obtain ⟨fuel, rfl⟩ : ∃ n, fuel = n + 1 := ⟨fuel - 1, by omega⟩
  have hdefines : Defines name fields := by
    refine Fields.defines_of_fault hvalid (fun hrename =>
      ⟨names, by rw [hfields, if_pos hrename]⟩) ?_
    rw [hfields]
    split
    · rwa [Fields.length_rename]
    · exact hfew
  let g : NamespaceRef := (s.newNamespace Define.ambient).1
  let s₁ : Store := (s.newNamespace Define.ambient).2
  have hg : s₁.namespaces[g.index]? = some Define.ambient := by
    change (s.namespaces.push _)[s.namespaces.size]? = _
    rw [Array.getElem?_push, if_pos rfl]
  obtain ⟨r, s₂, hexecute, hname, htype, hlt⟩ := execute_source host fuel hdefines
    (RecordType.label name) hg
  -- Showing and keeping the text leave the record type that has been made as it is.
  let source := "\n".intercalate (sourceLines name fields)
  let s₃ : Store := if options.verbose then s₂.write .stdout (source ++ "\n") else s₂
  have htypes : s₃.recordTypes = s₂.recordTypes := by
    unfold s₃
    split <;> rfl
  let s₄ : Store := if options.keepSource then s₃.modifyRecordType r (.keep source) else s₃
  have hdefine : Define.define host (fuel + 1) options name names s = .ok r s₄ := by
    have hrun : Define.execute host (fuel + 1) source (RecordType.label name) g s₁ = .ok () s₂ := by
      unfold Define.execute
      rw [hexecute]
    unfold Define.define
    rw [← hfields, hvalid, render_eq]
    dsimp only
    have hmake : Define.make (·.newNamespace Define.ambient) s = .ok g s₁ := rfl
    have hstore : (get : Define Store) s₂ = .ok s₂ s₂ := rfl
    rw [EStateM.bind_ok hmake, EStateM.bind_ok hrun, EStateM.bind_ok hstore, hname]
    dsimp only
    unfold s₄ s₃
    cases options.verbose with
    | false =>
      cases options.keepSource with
      | false => rfl
      | true => rfl
    | true =>
      cases options.keepSource with
      | false => rfl
      | true => rfl
  refine ⟨r, s₄, hdefine, ?_⟩
  have hget : s₃.getRecordType r = s₂.getRecordType r := by
    unfold Store.getRecordType
    rw [htypes]
  unfold s₄
  split
  · have hkept : (s₃.modifyRecordType r (.keep source)).getRecordType r =
        (s₃.getRecordType r).keep source := by
      unfold Store.getRecordType
      change ((s₃.recordTypes.modify r.index _)[r.index]?).getD _ = _
      rw [Array.getElem?_modify, if_pos rfl, htypes, Array.getElem?_eq_getElem hlt]
      rfl
    rw [hkept, hget]
    exact htype.keep source
  · rw [hget]
    exact htype

end StagedScript.RecordType
