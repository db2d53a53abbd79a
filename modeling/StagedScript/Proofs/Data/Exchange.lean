import StagedScript.Json.Convert
import StagedScript.Proofs.Arithmetic
import StagedScript.Proofs.Comparing.Equality
import StagedScript.Proofs.Records.Exact

/-!
# Values through JSON and back

A value becomes JSON if there is nothing in it that is no data, and what JSON gives back is the
value with tuples for its sequences: JSON has one kind of array, for lists, ranges and records as
well as for tuples.  A record comes back as a record if its type is known.
-/

namespace StagedScript

/-- Whether there is JSON for values of this kind, as far as their parts have some. -/
def Value.isData : Value → Bool
  | function _ | builtin _ | native _ _ _ | method _ _ | slot _ | recordType _ => false
  | _ => true

theorem Except.map_eq_ok {ε α β : Type} {x : Except ε α} {f : α → β} {b : β} :
    f <$> x = .ok b ↔ ∃ a, x = .ok a ∧ f a = b := by
  cases x with
  | ok a => simp [Functor.map, Except.map]
  | error e => simp [Functor.map, Except.map]

namespace Store

/-- The second value, of another store, is the first one with a tuple for each list, range and
record in it. -/
inductive Converts (s t : Store) : Value → Value → Prop
  | none_ : Converts s t .none_ .none_
  | bool (b : Bool) : Converts s t (.bool b) (.bool b)
  | int (n : Int64) : Converts s t (.int n) (.int n)
  | text (i j : Nat) (text : String) : Converts s t (.str i text) (.str j text)
  | tuple (i j : Nat) {vs ws : List Value} : List.Forall₂ (Converts s t) vs ws →
      Converts s t (.tuple i vs) (.tuple j ws)
  | list (r : ListRef) (j : Nat) {ws : List Value} :
      List.Forall₂ (Converts s t) (s.listItems r).toList ws → Converts s t (.list r) (.tuple j ws)
  | range (r : Range) (j : Nat) : Converts s t (.range r) (.tuple j (r.items.map .int))
  | record (r : RecordRef) (j : Nat) {ws : List Value} :
      List.Forall₂ (Converts s t) (s.getRecord r).slots ws → Converts s t (.record r) (.tuple j ws)
  | dict (r : DictRef) {r' : DictRef} {es : Table Value} : t.dicts[r'.index]? = some es →
      es.keys = (s.dictEntries r).keys →
      List.Forall₂ (Converts s t) (s.dictEntries r).values es.values →
      Converts s t (.dict r) (.dict r')

variable {s t u : Store} {v w : Value}

/-- What is converted stays so when the store grows. -/
theorem Converts.grows (hv : s.Acyclic v) (h : s.Converts t v w) (htu : t.Grows u) :
    s.Converts u v w := by
  induction v, hv using Acyclic.induct generalizing w with
  | step v hv ih =>
    have hall {vs ws : List Value} (hvs : ∀ v' ∈ vs, s.Part v v')
        (h : List.Forall₂ (s.Converts t) vs ws) : List.Forall₂ (s.Converts u) vs ws := by
      induction h with
      | nil => exact .nil
      | cons hv' _ ihs =>
        obtain ⟨hpart, hvs⟩ := List.forall_mem_cons.1 hvs
        exact .cons (ih _ hpart hv') (ihs hvs)
    cases h with
    | none_ => exact .none_
    | bool b => exact .bool b
    | int n => exact .int n
    | text i j text => exact .text i j text
    | tuple i j hvs => exact .tuple i j (hall (fun _ => id) hvs)
    | list r j hvs => exact .list r j (hall (fun _ => id) hvs)
    | range r j => exact .range r j
    | record r j hvs => exact .record r j (hall (fun _ => id) hvs)
    | dict r hget hkeys hvs => exact .dict r (htu.dicts _ _ hget) hkeys (hall (fun _ => id) hvs)

/-! ## Writing -/

/-- Values have JSON item by item. -/
theorem toJson_shapes {vs : List Value} {js : List Json} :
    (s.shapes vs).toJson = .ok js ↔ List.Forall₂ (fun v j => s.toJson v = .ok j) vs js := by
  induction vs generalizing js with
  | nil =>
    rw [List.forall₂_nil_left_iff]
    change (Except.ok [] = Except.ok js) ↔ _
    rw [Except.ok.injEq, eq_comm]
  | cons v vs ih =>
    rw [List.forall₂_cons_left_iff]
    change (do let j ← s.toJson v; return j :: (← (s.shapes vs).toJson)) = Except.ok js ↔ _
    constructor
    · intro h
      obtain ⟨j, hj, h⟩ := Except.bind_eq_ok.1 h
      obtain ⟨js, hjs, h⟩ := Except.bind_eq_ok.1 h
      cases h
      exact ⟨j, js, hj, ih.1 hjs, rfl⟩
    · rintro ⟨j, js, hj, hjs, rfl⟩
      exact Except.bind_eq_ok.2 ⟨j, hj, Except.bind_eq_ok.2 ⟨js, ih.2 hjs, rfl⟩⟩

/-- The items of a sequence have JSON if all of them have. -/
theorem exists_toJson_shapes {vs : List Value} :
    (∃ js, (s.shapes vs).toJson = .ok js) ↔ ∀ v ∈ vs, ∃ j, s.toJson v = .ok j := by
  simp only [toJson_shapes]
  exact exists_forall₂_iff

/-- Entries have the JSON of their values, under their names. -/
theorem toJson_namedShapes (s : Store) (es : List (String × Value)) : (s.namedShapes es).toJson =
    (fun js => (Entries.keys es).zip js) <$> (s.shapes (es.map (·.2))).toJson := by
  induction es with
  | nil => rfl
  | cons e es ih =>
    change (do let j ← s.toJson e.2; return (e.1, j) :: (← (s.namedShapes es).toJson)) =
      _ <$> (do let j ← s.toJson e.2; return j :: (← (s.shapes (es.map (·.2))).toJson))
    rw [ih]
    cases s.toJson e.2 with
    | error e => rfl
    | ok j =>
      cases (s.shapes (es.map (·.2))).toJson with
      | error e => rfl
      | ok js => rfl

/-- What an object is made of: the JSON of its values, under their names. -/
theorem toJson_dict {r : DictRef} (hr : s.Acyclic (.dict r)) : s.toJson (.dict r) =
    (fun js => Json.obj ((s.dictEntries r).keys.zip js)) <$>
      (s.shapes (s.dictEntries r).values).toJson := by
  unfold toJson
  rw [hr.shape_dict]
  change Json.obj <$> (s.namedShapes (s.dictEntries r).entries).toJson = _
  rw [toJson_namedShapes, Functor.map_map]
  rfl

section

variable (hv : s.Acyclic v)
include hv

/-- A value has JSON if it is of a kind that has, and its parts have JSON. -/
theorem exists_toJson_iff_parts :
    (∃ j, s.toJson v = .ok j) ↔ v.isData = true ∧ ∀ w, s.Part v w → ∃ j, s.toJson w = .ok j := by
  have hparts (f : List Json → Json) (hdata : v.isData = true) :
      (∃ j, f <$> (s.shapes (s.parts v)).toJson = .ok j) ↔
        v.isData = true ∧ ∀ w, s.Part v w → ∃ j, s.toJson w = .ok j := by
    have hall : (∀ w, s.Part v w → ∃ j, s.toJson w = .ok j) ↔
        ∃ js, (s.shapes (s.parts v)).toJson = .ok js :=
      exists_toJson_shapes.symm
    simp only [Except.map_eq_ok, and_iff_right hdata, hall]
    exact ⟨fun ⟨_, js, hjs, _⟩ => ⟨js, hjs⟩, fun ⟨js, hjs⟩ => ⟨_, js, hjs, rfl⟩⟩
  cases v with
  | tuple i vs => exact hparts .arr rfl
  | list r =>
    unfold toJson
    rw [hv.shape_list]
    exact hparts .arr rfl
  | record r =>
    unfold toJson
    rw [hv.shape_record]
    exact hparts .arr rfl
  | dict r =>
    rw [toJson_dict hv]
    exact hparts (fun js => .obj ((s.dictEntries r).keys.zip js)) rfl
  | none_ | bool | int | float | str | range =>
    exact ⟨fun _ => ⟨rfl, fun _ hw => absurd hw List.not_mem_nil⟩, fun _ => ⟨_, rfl⟩⟩
  | function | builtin | native | method | slot | recordType =>
    exact ⟨fun ⟨_, h⟩ => (nomatch h), fun ⟨h, _⟩ => (nomatch h)⟩

/-- A value has JSON if there is nothing in it that is no data. -/
theorem exists_toJson_iff : (∃ j, s.toJson v = .ok j) ↔ ∀ w, s.Contains v w → w.isData = true := by
  induction v, hv using Acyclic.induct with
  | step v hv ih =>
    rw [exists_toJson_iff_parts hv]
    constructor
    · rintro ⟨hdata, hparts⟩ w hw
      rcases hw.cases_head with rfl | ⟨x, hx, hxw⟩
      · exact hdata
      · exact (ih x hx).1 (hparts x hx) w hxw
    · intro hall
      exact ⟨hall v .refl, fun w hw => (ih w hw).2 fun x hx => hall x (.head hw hx)⟩

end

end Store

/-! ## Reading -/

namespace ReadJson

/-- The entries of an object are its values under their names. -/
theorem entries_zip {ks : List String} {js : List Json} (hlength : js.length = ks.length)
    {ws : List Value} {t u : Store} (h : values js t = .ok ws u) :
    entries (ks.zip js) t = .ok (ks.zip ws) u := by
  induction ks generalizing js ws t with
  | nil =>
    obtain rfl := List.length_eq_zero_iff.1 hlength
    cases h
    rfl
  | cons k ks ih =>
    cases js with
    | nil => cases hlength
    | cons j js =>
      obtain ⟨w, t₁, hw, h⟩ := EStateM.bind_eq_ok.1 h
      obtain ⟨ws, t₂, hws, h⟩ := EStateM.bind_eq_ok.1 h
      cases h
      rw [List.zip_cons_cons, entries, EStateM.bind_ok hw,
        EStateM.bind_ok (ih (Nat.succ.inj hlength) hws)]
      rfl

/-- The integers of a range are read back. -/
theorem values_ints (ns : List Int64) (t : Store) :
    values (ns.map fun n => .int n.toInt) t = .ok (ns.map .int) t := by
  induction ns with
  | nil => rfl
  | cons n ns ih =>
    have hn : value (.int n.toInt) t = .ok (.int n) t := by
      rw [value, if_pos (fits_toInt n), Int64.ofInt_toInt]
      rfl
    rw [List.map_cons, values, EStateM.bind_ok hn, EStateM.bind_ok ih]
    rfl

theorem length_values {js : List Json} {ws : List Value} {t u : Store}
    (h : values js t = .ok ws u) :
    ws.length = js.length := by
  induction js generalizing ws t with
  | nil =>
    cases h
    rfl
  | cons j js ih =>
    obtain ⟨w, t₁, -, h⟩ := EStateM.bind_eq_ok.1 h
    obtain ⟨ws, t₂, hws, h⟩ := EStateM.bind_eq_ok.1 h
    cases h
    exact congrArg Nat.succ (ih hws)

mutual

/-- Reading makes no record types and changes none. -/
theorem recordTypes_value (j : Json) {w : Value} {t u : Store} (h : value j t = .ok w u) :
    u.recordTypes = t.recordTypes := by
  cases j with
  | null | bool | float =>
    cases h
    rfl
  | int n =>
    unfold value at h
    split at h
    · cases h
      rfl
    · cases h
  | str s =>
    cases h
    rfl
  | arr js =>
    obtain ⟨ws, t₁, hws, h⟩ := EStateM.bind_eq_ok.1 h
    have hsame := recordTypes_values js hws
    cases h
    exact hsame
  | obj fields =>
    obtain ⟨es, t₁, hes, h⟩ := EStateM.bind_eq_ok.1 h
    have hsame := recordTypes_entries fields hes
    cases h
    exact hsame

theorem recordTypes_values (js : List Json) {ws : List Value} {t u : Store}
    (h : values js t = .ok ws u) :
    u.recordTypes = t.recordTypes := by
  cases js with
  | nil =>
    cases h
    rfl
  | cons j js =>
    obtain ⟨w, t₁, hw, h⟩ := EStateM.bind_eq_ok.1 h
    obtain ⟨ws, t₂, hws, h⟩ := EStateM.bind_eq_ok.1 h
    cases h
    exact (recordTypes_values js hws).trans (recordTypes_value j hw)

theorem recordTypes_entries (fields : List (String × Json)) {es : List (String × Value)}
    {t u : Store} (h : entries fields t = .ok es u) : u.recordTypes = t.recordTypes := by
  cases fields with
  | nil =>
    cases h
    rfl
  | cons field fields =>
    obtain ⟨k, j⟩ := field
    obtain ⟨w, t₁, hw, h⟩ := EStateM.bind_eq_ok.1 h
    obtain ⟨es, t₂, hes, h⟩ := EStateM.bind_eq_ok.1 h
    cases h
    exact (recordTypes_entries fields hes).trans (recordTypes_value j hw)

end

theorem getRecordType_values {js : List Json} {ws : List Value} {t u : Store}
    (h : values js t = .ok ws u) (type : RecordTypeRef) :
    u.getRecordType type = t.getRecordType type := by
  rw [Store.getRecordType, Store.getRecordType, recordTypes_values js h]

end ReadJson

namespace Store

/-- From the JSON, in whatever store it is read, comes the value with tuples for its sequences. -/
def Returns (s : Store) (v : Value) (j : Json) : Prop :=
  ∀ t : Store, ∃ w u, ReadJson.value j t = .ok w u ∧ t.Grows u ∧ s.Converts u v w

variable {s : Store} {v : Value}

/-- What is converted of the parts of a value stays so when the store grows. -/
theorem convertsAll_grows (hv : s.Acyclic v) {t u : Store} {ws : List Value}
    (h : List.Forall₂ (s.Converts t) (s.parts v) ws) (htu : t.Grows u) :
    List.Forall₂ (s.Converts u) (s.parts v) ws :=
  ((List.forall₂_and_left _ _).2 ⟨fun _ hw => hw, h⟩).imp fun _ _ h => h.2.grows (hv.part h.1) htu

/-- The items of an array are read one after the other. -/
theorem returns_all {vs : List Value} {js : List Json} (hvs : ∀ v ∈ vs, s.Acyclic v)
    (h : List.Forall₂ s.Returns vs js) (t : Store) :
    ∃ ws u, ReadJson.values js t = .ok ws u ∧ t.Grows u ∧
      List.Forall₂ (s.Converts u) vs ws := by
  induction h generalizing t with
  | nil => exact ⟨[], t, rfl, .refl t, .nil⟩
  | @cons v j vs js hv _ ih =>
    obtain ⟨hacyclic, hvs⟩ := List.forall_mem_cons.1 hvs
    obtain ⟨w, t₁, hw, hgrows, hconverts⟩ := hv t
    obtain ⟨ws, u, hws, hgrows', hall⟩ := ih hvs t₁
    refine ⟨w :: ws, u, ?_, hgrows.trans hgrows', .cons (hconverts.grows hacyclic hgrows') hall⟩
    rw [ReadJson.values, EStateM.bind_ok hw, EStateM.bind_ok hws]
    rfl

/-- The parts of a value are read one after the other, if each of them comes back from its JSON. -/
theorem Acyclic.returns_parts (hv : s.Acyclic v)
    (hparts : ∀ w, s.Part v w → ∀ {j : Json}, s.toJson w = .ok j → s.Returns w j) {js : List Json}
    (hjs : (s.shapes (s.parts v)).toJson = .ok js) (t : Store) :
    ∃ ws u, ReadJson.values js t = .ok ws u ∧
      t.Grows u ∧ List.Forall₂ (s.Converts u) (s.parts v) ws :=
  returns_all (fun _ hw => hv.part hw) (((List.forall₂_and_left _ _).2
    ⟨fun _ hw => hw, toJson_shapes.1 hjs⟩).imp fun w _ h => hparts w h.1 h.2) t

/-- An array is read as the tuple of what its items are read as. -/
theorem value_arr {js : List Json} {ws : List Value} {t u : Store}
    (h : ReadJson.values js t = .ok ws u) :
    ReadJson.value (.arr js) t = .ok (.tuple u.nextIdentity ws) u.newIdentity.2 := by
  rw [ReadJson.value, EStateM.bind_ok h]
  rfl

/-- An object with distinct names is read as a dict with these names, in their order. -/
theorem value_obj {ks : List String} (hks : ks.Nodup) {js : List Json}
    (hlength : js.length = ks.length) {ws : List Value} {t u : Store}
    (h : ReadJson.values js t = .ok ws u) : ∃ es : Table Value,
    es.keys = ks ∧ es.values = ws ∧
      ReadJson.value (.obj (ks.zip js)) t = .ok (.dict (u.newDict es).1) (u.newDict es).2 := by
  have hsame : ks.length = ws.length := by rw [ReadJson.length_values h, hlength]
  have hkeys : (ks.zip ws).map (·.1) = ks := List.map_fst_zip hsame.le
  have hentries : (Table.ofList (ks.zip ws)).entries = ks.zip ws :=
    Table.insertAll_entries .empty (ks.zip ws) (by rwa [hkeys])
  refine ⟨.ofList (ks.zip ws), ?_, ?_, ?_⟩
  · rw [Table.keys, hentries]
    exact hkeys
  · rw [Table.values, hentries]
    exact List.map_snd_zip hsame.ge
  · rw [ReadJson.value, EStateM.bind_ok (ReadJson.entries_zip hlength h)]
    rfl

/-- What a value is written as is read as the value with tuples for its sequences. -/
theorem Discrete.returns (hv : s.Discrete v) {j : Json} (hj : s.toJson v = .ok j) :
    s.Returns v j := by
  induction v, hv using Discrete.induct generalizing j with
  | step v hv ih =>
    have hsequence (hj : Json.arr <$> (s.shapes (s.parts v)).toJson = .ok j)
        (hconverts : ∀ {u : Store} {i : Nat} {ws : List Value}, List.Forall₂ (s.Converts u)
          (s.parts v) ws → s.Converts u v (.tuple i ws)) : s.Returns v j := by
      obtain ⟨js, hjs, rfl⟩ := Except.map_eq_ok.1 hj
      intro t
      obtain ⟨ws, u, hws, hgrows, hall⟩ := hv.acyclic.returns_parts ih hjs t
      have hgrows' := Grows.newIdentity u
      exact ⟨_, _, value_arr hws, hgrows.trans hgrows', (hconverts hall).grows hv.acyclic hgrows'⟩
    cases v with
    | none_ =>
      cases hj
      exact fun t => ⟨_, t, rfl, .refl t, .none_⟩
    | bool b =>
      cases hj
      exact fun t => ⟨_, t, rfl, .refl t, .bool b⟩
    | int n =>
      cases hj
      intro t
      refine ⟨.int n, t, ?_, .refl t, .int n⟩
      rw [ReadJson.value, if_pos (fits_toInt n), Int64.ofInt_toInt]
      rfl
    | float x => exact absurd rfl hv.form_ne
    | str i text =>
      cases hj
      exact fun t => ⟨_, _, rfl, .newIdentity t, .text _ _ _⟩
    | tuple i vs => exact hsequence hj (.tuple i _)
    | list r =>
      unfold toJson at hj
      rw [hv.acyclic.shape_list] at hj
      exact hsequence hj (.list r _)
    | record r =>
      unfold toJson at hj
      rw [hv.acyclic.shape_record] at hj
      exact hsequence hj (.record r _)
    | range r =>
      cases hj
      exact fun t => ⟨_, _, value_arr (ReadJson.values_ints r.items t), .newIdentity t, .range r _⟩
    | dict r =>
      rw [toJson_dict hv.acyclic] at hj
      obtain ⟨js, hjs, rfl⟩ := Except.map_eq_ok.1 hj
      intro t
      obtain ⟨ws, u, hws, hgrows, hall⟩ := hv.acyclic.returns_parts ih hjs t
      have hlength : js.length = (s.dictEntries r).keys.length := by
        rw [← (toJson_shapes.1 hjs).length_eq]
        exact (List.length_map _).trans (List.length_map _).symm
      obtain ⟨es, hkeys, rfl, hread⟩ := value_obj (s.dictEntries r).nodup hlength hws
      have hgrows' := Grows.newDict u es
      have hget : (u.newDict es).2.dicts[(u.newDict es).1.index]? = some es :=
        Array.getElem?_push_size
      exact ⟨_, _, hread, hgrows.trans hgrows',
        .dict r hget hkeys (convertsAll_grows hv.acyclic hall hgrows')⟩
    | function | builtin | native | method | slot | recordType => cases hj

/-! ## Records -/

/-- From the JSON, in whatever store knows the type, comes a record of the type with what the slots
of the given record are converted to. -/
def Rebuilds (s : Store) (r : RecordRef) (type : RecordTypeRef) (j : Json) : Prop :=
  ∀ t : Store, t.getRecordType type = s.getRecordType type → ∃ r' u,
    ReadJson.record type j t = .ok (.record r') u ∧ u.IsInstance r' type ∧
    u.getRecordType type = s.getRecordType type ∧
    List.Forall₂ (s.Converts u) (s.getRecord r).slots (u.getRecord r').slots

section

variable {r : RecordRef} {type : RecordTypeRef}

theorem getRecord_newRecord (t : Store) (record : Record) :
    (t.newRecord record).2.getRecord (t.newRecord record).1 = record := by
  change ((t.records.push record)[t.records.size]?).getD default = record
  rw [Array.getElem?_push_size]
  rfl

/-- An array with an item for every field is read as a record of the type. -/
theorem record_eq_ok {js : List Json} {ws : List Value} {t u : Store}
    (h : ReadJson.values js t = .ok ws u) (hlength : ws.length = (u.getRecordType type).arity) :
    ReadJson.record type (.arr js) t = .ok (.record (u.newRecord ⟨type, ws⟩).1)
    (u.newRecord ⟨type, ws⟩).2 := by
  have hslots : (u.getRecordType type).slotsOfValues ws = .ok ws := if_pos hlength
  have hget : (get : ReadJson Store) u = .ok u u := rfl
  unfold ReadJson.record
  dsimp only
  rw [EStateM.bind_ok h, EStateM.bind_ok hget, hslots]
  rfl

/-- An array with another number of items is not read as a record of the type. -/
theorem record_eq_error (js : List Json) (t : Store)
    (hlength : js.length ≠ (t.getRecordType type).arity) :
    ∃ e u, ReadJson.record type (.arr js) t = .error e u ∧ ∀ ws t', ReadJson.values js t =
      .ok ws t' →
      e = .construction ((t.getRecordType type).arityFault js.length) := by
  cases hvalues : ReadJson.values js t with
  | error e u => exact ⟨e, u, EStateM.bind_error hvalues, fun _ _ h => by cases h⟩
  | ok ws u =>
    have htype := ReadJson.getRecordType_values hvalues type
    have hws := ReadJson.length_values hvalues
    have hslots : (u.getRecordType type).slotsOfValues ws =
        .error ((t.getRecordType type).arityFault js.length) := by
      rw [htype, ← hws]
      exact if_neg (hws ▸ hlength)
    refine ⟨_, u, ?_, fun _ _ _ => rfl⟩
    have hget : (get : ReadJson Store) u = .ok u u := rfl
    unfold ReadJson.record
    dsimp only
    rw [EStateM.bind_ok hvalues, EStateM.bind_ok hget, hslots]
    rfl

/-- A record is rebuilt from what it is written as. -/
theorem Discrete.rebuilds (hr : s.IsInstance r type) (hv : s.Discrete (.record r)) {j : Json}
    (hj : s.toJson (.record r) = .ok j) : s.Rebuilds r type j := by
  unfold toJson at hj
  rw [hv.acyclic.shape_record] at hj
  obtain ⟨js, hjs, rfl⟩ := Except.map_eq_ok.1 hj
  intro t htype
  obtain ⟨ws, u, hws, hgrows, hall⟩ :=
    hv.acyclic.returns_parts (fun w hw => (hv.part hw).returns) hjs t
  have hsame := (ReadJson.getRecordType_values hws type).trans htype
  have hlength : ws.length = (u.getRecordType type).arity := by
    rw [hsame, ← hr.slots]
    exact hall.length_eq.symm
  have hget := getRecord_newRecord u ⟨type, ws⟩
  have hgrows' : u.Grows (u.newRecord ⟨type, ws⟩).2 := ⟨fun _ _ h => h, fun _ _ h => h, rfl⟩
  refine ⟨_, _, record_eq_ok hws hlength, ⟨by rw [hget], by rw [hget]; exact hlength⟩, hsame, ?_⟩
  rw [hget]
  exact convertsAll_grows hv.acyclic hall hgrows'

end

/-- What is data through and through, and nothing else, becomes JSON; what is read from the JSON is
the value with tuples for its sequences; and a record is rebuilt from its JSON if its type is given,
but not from an array with more or fewer items. -/
theorem json_roundTrip (s : Store) :
    (∀ v, s.Discrete v → ((∃ j, s.toJson v = .ok j) ↔ ∀ w, s.Contains v w → w.isData = true) ∧
      ∀ j, s.toJson v = .ok j → s.Returns v j) ∧
    ∀ r type, s.IsInstance r type →
      (∀ v ∈ (s.getRecord r).slots, s.Discrete v ∧ ∀ w, s.Contains v w → w.isData = true) →
      (∃ j, s.toJson (.record r) = .ok j ∧ s.Rebuilds r type j) ∧
      ∀ js t, t.getRecordType type = s.getRecordType type →
      js.length ≠ (s.getRecord r).slots.length →
        ∃ e u, ReadJson.record type (.arr js) t = .error e u := by
  refine ⟨fun v hv => ⟨exists_toJson_iff hv.acyclic, fun j => hv.returns⟩, fun r type hr hslots =>
    ⟨?_, ?_⟩⟩
  · have hv : s.Discrete (.record r) := .of_parts Form.noConfusion fun w hw => (hslots w hw).1
    obtain ⟨j, hj⟩ := (exists_toJson_iff_parts hv.acyclic).2
      ⟨rfl, fun w hw => (exists_toJson_iff (hslots w hw).1.acyclic).2 (hslots w hw).2⟩
    exact ⟨j, hj, hv.rebuilds hr hj⟩
  · intro js t htype hlength
    rw [hr.slots, ← htype] at hlength
    obtain ⟨e, u, herror, -⟩ := record_eq_error js t hlength
    exact ⟨e, u, herror⟩

/-- A store with a record that holds a dict, which holds a list and a range. -/
def sampleData : Store :=
  { empty with
    lists := #[#[.int Int64.minValue, .str 0 "a"]]
    dicts := #[.ofList [("k", .list ⟨0⟩), ("r", .range ⟨0, 3, 1⟩)]]
    recordTypes := #[{ (default : RecordType) with name := "Pair", fields := ["a", "b"] }]
    records := #[⟨⟨0⟩, [.dict ⟨0⟩, .none_]⟩] }

theorem discrete_sampleData : sampleData.Discrete (.dict ⟨0⟩) ∧ sampleData.Discrete .none_ := by
  have hleaf {v : Value} (hv : v.form ≠ .float) (hparts : sampleData.parts v = []) :
      sampleData.Discrete v :=
    .of_parts hv fun w hw => by
      rw [Part, hparts] at hw
      cases hw
  have hlist : sampleData.Discrete (.list ⟨0⟩) := by
    refine .of_parts Form.noConfusion fun w hw => ?_
    rcases List.mem_pair.1 (show w ∈ [.int Int64.minValue, .str 0 "a"] from hw) with rfl | rfl
    · exact hleaf Form.noConfusion rfl
    · exact hleaf Form.noConfusion rfl
  refine ⟨.of_parts Form.noConfusion fun w hw => ?_, hleaf Form.noConfusion rfl⟩
  rcases List.mem_pair.1 (show w ∈ [.list ⟨0⟩, .range ⟨0, 3, 1⟩] from hw) with rfl | rfl
  · exact hlist
  · exact hleaf Form.noConfusion rfl

/-- The dict and the record go through JSON and back. -/
theorem sampleData_roundTrip : sampleData.Discrete (.dict ⟨0⟩) ∧ sampleData.IsInstance ⟨0⟩ ⟨0⟩ ∧
    (∃ j, sampleData.toJson (.dict ⟨0⟩) = .ok j ∧ sampleData.Returns (.dict ⟨0⟩) j) ∧
    (∃ j, sampleData.toJson (.record ⟨0⟩) = .ok j ∧ sampleData.Rebuilds ⟨0⟩ ⟨0⟩ j) ∧
    ∃ e u, ReadJson.record ⟨0⟩ (.arr []) sampleData = .error e u := by
  obtain ⟨hdict, hnone⟩ := discrete_sampleData
  obtain ⟨hvalues, hrecords⟩ := json_roundTrip sampleData
  obtain ⟨j, hj⟩ : ∃ j, sampleData.toJson (.dict ⟨0⟩) = .ok j := ⟨_, rfl⟩
  have hr : sampleData.IsInstance ⟨0⟩ ⟨0⟩ := ⟨rfl, rfl⟩
  obtain ⟨hrebuilt, hrejected⟩ := hrecords ⟨0⟩ ⟨0⟩ hr fun v hv => by
    rcases List.mem_pair.1 (show v ∈ [.dict ⟨0⟩, .none_] from hv) with rfl | rfl
    · exact ⟨hdict, (hvalues _ hdict).1.1 ⟨j, hj⟩⟩
    · exact ⟨hnone, (hvalues _ hnone).1.1 ⟨.null, rfl⟩⟩
  exact ⟨hdict, hr, ⟨j, hj, (hvalues _ hdict).2 j hj⟩, hrebuilt,
    hrejected [] sampleData rfl (by decide)⟩

end Store

end StagedScript
