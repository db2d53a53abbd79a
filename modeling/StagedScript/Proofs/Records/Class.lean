import StagedScript.Proofs.Closures
import StagedScript.Proofs.Records.Reading
import StagedScript.Record.Define

/-!
# Executing the text of a record class

Every line of a class body binds its name to what it says, and the record type is read off these
bindings.
-/

namespace StagedScript

/-- The value is what the item stands for. -/
def ClassItem.Holds : ClassItem → Value → Prop
  | texts xs, v => ∃ i items, v = .tuple i items ∧
      List.Forall₂ (fun x v => ∃ i, v = Value.str i x) xs items
  | number n, v => v = .int (Int64.ofNat n)
  | text t, v => ∃ i, v = .str i t
  | name x, v => Define.ambient.get? x = some v
  | slot i, v => v = .slot i

/-- In the store the body of a class, with so much bound in it, is executed where the builtins for
record classes are bound. -/
structure Store.InClass (s : Store) (f : Frame) (t : Table Value) : Prop where
  captured : f.captured? = none
  globals : s.namespaces[f.globals.index]? = some Define.ambient
  locals : s.namespaces[f.locals.index]? = some t
  apart : f.locals.index ≠ f.globals.index

namespace Store

variable {s : Store} {f : Frame} {t : Table Value}

theorem InClass.find?_eq (h : s.InClass f t) {x : String} {v : Value} (hx : t.get? x = none)
    (hv : Define.ambient.get? x = some v) : f.find? s x = some v := by
  unfold Frame.find? bindings
  rw [h.captured, h.locals, h.globals]
  simp [hx, hv]

theorem InClass.fresh (h : s.InClass f t) (n : Nat) : InClass { s with nextIdentity := n } f t :=
  ⟨h.captured, h.globals, h.locals, h.apart⟩

theorem InClass.bind (h : s.InClass f t) (x : String) (v : Value) :
    (s.bind f.locals x v).InClass f (t.insert x v) where
  captured := h.captured
  globals := by
    change (s.namespaces.modify f.locals.index _)[f.globals.index]? = _
    rw [Array.getElem?_modify, if_neg h.apart, h.globals]
  locals := by
    change (s.namespaces.modify f.locals.index _)[f.locals.index]? = _
    rw [Array.getElem?_modify, if_pos rfl, h.locals]
    rfl
  apart := h.apart

end Store

section

variable (host : Host) (fuel : Nat) (m : Machine) {f : Frame} {s : Store} {t : Table Value}

theorem Run.lookup_eq {v : Value} {x : String} (h : f.find? s x = some v) :
    Run.lookup f x s = .ok v s := by
  unfold Run.lookup
  rw [EStateM.bind_ok (x := Run.view _) (a := f.find? s x) rfl, h]
  rfl

theorem Run.evalAll_texts (call : Caller) {xs : List String} {es : List Expr}
    (h : List.Forall₂ (fun x e => ∃ span, e = Expr.str span x) xs es) (s : Store) :
    ∃ items n, Run.evalAll call f es s = .ok items { s with nextIdentity := n } ∧
      List.Forall₂ (fun x v => ∃ i, v = Value.str i x) xs items := by
  induction h generalizing s with
  | nil => exact ⟨[], s.nextIdentity, by unfold Run.evalAll; rfl, .nil⟩
  | @cons x e xs es he _ ih =>
    obtain ⟨span, rfl⟩ := he
    obtain ⟨items, n, hitems, hall⟩ := ih { s with nextIdentity := s.nextIdentity + 1 }
    refine ⟨.str s.nextIdentity x :: items, n, ?_, .cons ⟨_, rfl⟩ hall⟩
    unfold Run.evalAll
    have hfirst : Run.eval call f (.str span x) s =
        .ok (.str s.nextIdentity x) { s with nextIdentity := s.nextIdentity + 1 } := by
      unfold Run.eval
      rfl
    rw [EStateM.bind_ok hfirst, EStateM.bind_ok hitems]
    rfl

theorem toNat_ofNat_of_fits {i : Nat} (hi : StagedScript.fits i = true) :
    (Int64.ofNat i).toInt = i := by
  have hof : Int64.ofNat i = Int64.ofInt i := rfl
  rw [hof, toInt_ofInt_of_fits hi]

/-- An expression for an item has the value that the item stands for, and takes nothing but
identities. -/
theorem ClassItem.eval_eq {item : ClassItem} {e : Expr} (he : item.Says e) (hplain : item.Plain)
    (hs : s.InClass f t) (hslot : t.get? "_slot" = none)
    (hname : ∀ x, item = .name x → x = "OrderedDict" ∧ t.get? x = none) :
    ∃ v n, Run.eval (callIn host (fuel + 1) m) f e s = .ok v { s with nextIdentity := n } ∧
      item.Holds v := by
  cases item with
  | texts xs =>
    obtain ⟨span, es, rfl, hes⟩ := he
    obtain ⟨items, n, hitems, hall⟩ := Run.evalAll_texts (callIn host (fuel + 1) m) hes s (f := f)
    refine ⟨.tuple n items, n + 1, ?_, n, items, rfl, hall⟩
    unfold Run.eval
    rw [EStateM.bind_ok hitems]
    rfl
  | number n =>
    obtain ⟨span, rfl⟩ := he
    exact ⟨_, s.nextIdentity, by unfold Run.eval; rfl, rfl⟩
  | text t =>
    obtain ⟨span, rfl⟩ := he
    exact ⟨.str s.nextIdentity t, s.nextIdentity + 1, by unfold Run.eval; rfl, _, rfl⟩
  | name x =>
    obtain ⟨span, rfl⟩ := he
    obtain ⟨rfl, hx⟩ := hname x rfl
    refine ⟨.builtin .orderedDict, s.nextIdentity, ?_, rfl⟩
    unfold Run.eval
    exact Run.lookup_eq (hs.find?_eq hx rfl)
  | slot i =>
    obtain ⟨span, spanName, spanIndex, rfl⟩ := he
    refine ⟨.slot i, s.nextIdentity, ?_, rfl⟩
    unfold Run.eval Run.eval
    -- No name in the body has hidden the builtin that makes accessors.
    have hcallee := Run.lookup_eq (hs.find?_eq hslot (v := .builtin .slot) rfl)
    have hargs : Run.evalArgs (callIn host (fuel + 1) m) f (.ofList [])
        [⟨.positional, .int spanIndex (Int64.ofNat i)⟩] s =
          .ok (.ofList [.int (Int64.ofNat i)]) s := by
      unfold Run.evalArgs Run.eval
      rw [EStateM.bind_ok (x := pure _) rfl]
      unfold Run.evalArgs
      rfl
    rw [EStateM.bind_ok hcallee, EStateM.bind_ok hargs]
    have haccessor : Run.accessor (.int (Int64.ofNat i)) s = .ok (.slot i) s := by
      unfold Run.accessor
      simp only [Value.int?, toNat_ofNat_of_fits hplain, Int.natCast_nonneg, if_true,
        Int.toNat_natCast]
      rfl
    exact haccessor

/-- The statement binds its name, and takes nothing else but identities. -/
theorem Run.exec_binds {rounds : Nat} {b : String × ClassItem} {stmt : Stmt}
    (hb : RecordType.Binds b stmt) (hplain : b.2.Plain) (hs : s.InClass f t)
    (hslot : t.get? "_slot" = none)
    (hname : ∀ x, b.2 = .name x → x = "OrderedDict" ∧ t.get? x = none) :
    ∃ v n, Run.exec (callIn host (fuel + 1) m) rounds f stmt s =
        .ok .next (Store.bind { s with nextIdentity := n } f.locals b.1 v) ∧ b.2.Holds v := by
  obtain ⟨span, spanName, e, rfl, he⟩ := hb
  obtain ⟨v, n, hv, hholds⟩ := ClassItem.eval_eq host fuel m he hplain hs hslot hname
  refine ⟨v, n, ?_, hholds⟩
  unfold Run.exec
  rw [EStateM.bind_ok hv]
  have hassign : Run.assign (callIn host (fuel + 1) m) f (.name spanName b.1) v
      { s with nextIdentity := n } =
      .ok () (Store.bind { s with nextIdentity := n } f.locals b.1 v) := by
    unfold Run.assign
    rfl
  simp only [List.forM_eq_forM, List.forM_cons, bind_assoc]
  rw [EStateM.bind_ok hassign]
  rfl

/-- What the items say can be evaluated one after the other: what they name is still what it is
outside of the class. -/
def Bindable : List String → List (String × ClassItem) → Prop
  | _, [] => True
  | bound, b :: bs => b.1 ∉ bound ∧ "_slot" ∉ bound ∧
      (∀ x, b.2 = .name x → x = "OrderedDict" ∧ x ∉ bound) ∧ b.2.Plain ∧
      Bindable (bound ++ [b.1]) bs

/-- The entry is for the name, and its value is what the item stands for. -/
def Entered (b : String × ClassItem) (e : String × Value) : Prop := e.1 = b.1 ∧ b.2.Holds e.2

/-- The statements of a class body bind their names, in order. -/
theorem Run.execAll_binds {rounds : Nat} {bs : List (String × ClassItem)} {ss : List Stmt}
    (h : List.Forall₂ RecordType.Binds bs ss) (hbs : Bindable t.keys bs) (hs : s.InClass f t) :
    ∃ s' u es, Run.execAll (callIn host (fuel + 1) m) rounds f ss s = .ok .next s' ∧
      s'.InClass f u ∧ u.entries = t.entries ++ es ∧ List.Forall₂ Entered bs es ∧
      s'.recordTypes = s.recordTypes := by
  induction h generalizing s t with
  | nil => exact ⟨s, t, [], by unfold Run.execAll; rfl, hs, (List.append_nil _).symm, .nil, rfl⟩
  | @cons b stmt bs ss hb _ ih =>
    obtain ⟨hnew, hslot, hname, hplain, hbs⟩ := hbs
    obtain ⟨v, n, hexec, hholds⟩ := Run.exec_binds host fuel m hb hplain hs
      (Table.get?_eq_none_iff.2 hslot) fun x hx =>
        ⟨(hname x hx).1, Table.get?_eq_none_iff.2 (hname x hx).2⟩
    have hkeys : (t.insert b.1 v).keys = t.keys ++ [b.1] := by
      rw [Table.keys_insert, if_neg hnew]
    rw [← hkeys] at hbs
    obtain ⟨s', u, es, hrest, hclass, hentries, hall, htypes⟩ := ih hbs ((hs.fresh n).bind b.1 v)
    refine ⟨s', u, (b.1, v) :: es, ?_, hclass, ?_, .cons ⟨rfl, hholds⟩ hall, htypes⟩
    · unfold Run.execAll
      have hlocated : Run.locating (fun _ => f.location stmt.span)
          (Run.exec (callIn host (fuel + 1) m) rounds f stmt) s =
            .ok .next (Store.bind { s with nextIdentity := n } f.locals b.1 v) := by
        unfold Run.locating
        rw [hexec]
      rw [EStateM.bind_ok hlocated]
      exact hrest
    · rw [hentries, Table.insert_entries t hnew, List.append_assoc]
      rfl

end

namespace RecordType

variable {name : String} {fields : List String} {es : List (String × Value)}

theorem entered_slots {xs : List (String × Nat)}
    (h : List.Forall₂ Entered (xs.map fun (x, i) => (x, .slot i)) es) :
    es = xs.map fun (x, i) => (x, .slot i) := by
  induction xs generalizing es with
  | nil =>
    cases h
    rfl
  | cons x xs ih =>
    cases h with
    | @cons _ e _ es he hes =>
    obtain ⟨x, i⟩ := x
    obtain ⟨k, v⟩ := e
    obtain ⟨rfl, rfl⟩ := he
    rw [ih hes]
    rfl

/-- What a class body has bound at its end. -/
theorem entered_bindings (h : List.Forall₂ Entered (bindings fields) es) :
    ∃ i items j, List.Forall₂ (fun x v => ∃ i, v = Value.str i x) fields items ∧
      es = [("_fields", .tuple i items), ("_arity", .int (Int64.ofNat fields.length)),
        ("_repr_fmt", .str j (plainFormat fields)), ("_mapping", .builtin .orderedDict)]
          ++ fields.zipIdx.map fun (x, i) => (x, .slot i) := by
  cases h with
  | @cons _ e₁ _ _ h₁ h =>
  cases h with
  | @cons _ e₂ _ _ h₂ h =>
  cases h with
  | @cons _ e₃ _ _ h₃ h =>
  cases h with
  | @cons _ e₄ _ _ h₄ h =>
  obtain ⟨k₁, v₁⟩ := e₁
  obtain ⟨k₂, v₂⟩ := e₂
  obtain ⟨k₃, v₃⟩ := e₃
  obtain ⟨k₄, v₄⟩ := e₄
  obtain ⟨rfl, i, items, rfl, hitems⟩ := h₁
  obtain ⟨rfl, rfl⟩ := h₂
  obtain ⟨rfl, j, rfl⟩ := h₃
  obtain ⟨rfl, h₄⟩ := h₄
  have hmapping : Define.ambient.get? "OrderedDict" = some (.builtin .orderedDict) := rfl
  obtain rfl := Option.some.inj (hmapping.symm.trans h₄)
  exact ⟨i, items, j, hitems, by rw [entered_slots h]; rfl⟩

theorem mapM_str? {items : List Value}
    (h : List.Forall₂ (fun x v => ∃ i, v = Value.str i x) fields items) :
    items.mapM Value.str? = some fields := by
  induction h with
  | nil => rfl
  | @cons x v xs vs hv _ ih =>
    obtain ⟨i, rfl⟩ := hv
    simp [List.mapM_cons, Value.str?, ih]

/-- The record type that a class body with these bindings describes. -/
theorem ofClass_eq {s : Store} {body : Table Value} (doc? : Option String)
    (hnames : ∀ x ∈ fields, x ∉ reserved) (hfew : fields.length < 2 ^ 63)
    (h : List.Forall₂ Entered (bindings fields) body.entries) :
    ∃ accessors attrs, ofClass s name body doc? =
        .ok ⟨name, fields, accessors, plainFormat fields, doc?, attrs, none⟩ ∧
      accessors.entries = fields.zipIdx ∧ attrs.entries = [] := by
  obtain ⟨i, items, j, hitems, hentries⟩ := entered_bindings h
  have hget {e : String × Value} (he : e ∈ body.entries) : body.get? e.1 = some e.2 :=
    Table.get?_of_mem he
  have hfields : readFields name body = .ok fields := by
    unfold readFields
    rw [hget (e := ("_fields", .tuple i items)) (by simp [hentries])]
    simp only [fieldNames?, mapM_str? hitems]
  have harity : checkArity s name body fields.length = .ok () := by
    unfold checkArity
    rw [hget (e := ("_arity", .int (Int64.ofNat fields.length))) (by simp [hentries])]
    simp only [Value.int?, Option.map_some, toNat_ofNat_of_fits (fits_of_le hfew), if_true]
  have hmapping : checkMapping s name body = .ok () := by
    unfold checkMapping
    rw [hget (e := ("_mapping", .builtin .orderedDict)) (by simp [hentries])]
  have hformat : readFormat s name body fields = .ok (plainFormat fields) := by
    unfold readFormat
    rw [hget (e := ("_repr_fmt", .str j (plainFormat fields))) (by simp [hentries])]
  -- What is not reserved are the accessors, for no field has a reserved name.
  have hown : (body.filter fun key _ => !reserved.contains key).entries =
      fields.zipIdx.map fun e => (e.1, .slot e.2) := by
    change List.filter _ body.entries = _
    rw [hentries, List.filter_append]
    have hslots : ((fields.zipIdx.map fun e => (e.1, Value.slot e.2)).filter fun e =>
        !reserved.contains e.1) = fields.zipIdx.map fun e => (e.1, .slot e.2) := by
      refine List.filter_eq_self.2 fun e he => ?_
      obtain ⟨⟨x, i⟩, hx, rfl⟩ := List.mem_map.1 he
      simpa using hnames x (List.fst_mem_of_mem_zipIdx hx)
    rw [hslots]
    rfl
  have haccessors :
      ((body.filter fun key _ => !reserved.contains key).filterMap accessed?).entries =
      fields.zipIdx := by
    change List.filterMap _ (body.filter fun key _ => !reserved.contains key).entries = _
    rw [hown, List.filterMap_map]
    exact (List.filterMap_congr fun e _ => rfl).trans List.filterMap_some
  have hattrs : ((body.filter fun key _ => !reserved.contains key).filterMap plain?).entries =
      [] := by
    change List.filterMap _ (body.filter fun key _ => !reserved.contains key).entries = _
    rw [hown, List.filterMap_map]
    exact List.filterMap_eq_nil_iff.2 fun e _ => rfl
  have hwithin : checkAccessors name
      ((body.filter fun key _ => !reserved.contains key).filterMap accessed?) fields.length =
      .ok () := by
    unfold checkAccessors
    rw [haccessors, List.find?_eq_none.2]
    rintro ⟨x, i⟩ hx
    have hlt : i < fields.length := by simpa using List.snd_lt_of_mem_zipIdx hx
    simpa using hlt
  refine ⟨_, _, ?_, haccessors, hattrs⟩
  unfold ofClass
  rw [hfields]
  change (do
    checkArity s name body fields.length
    checkMapping s name body
    let format ← readFormat s name body fields
    checkAccessors name _ fields.length
    return _) = _
  rw [harity, hmapping, hformat]
  change (do checkAccessors name _ fields.length; return _) = _
  rw [hwithin]
  rfl

end RecordType

end StagedScript
