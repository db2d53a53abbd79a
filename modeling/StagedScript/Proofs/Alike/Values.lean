import StagedScript.Proofs.Alike.Matching
import StagedScript.Run.Item
import StagedScript.Run.Attribute
import StagedScript.Run.Operator

/-!
# Working with values

What is done with values (showing, comparing, indexing, computing) tells functions apart by where
they are in the store, and shows their names and the texts that their bodies start with.  So all of
it respects every relation of a `Kinship`.
-/

namespace StagedScript

variable {h : Hidden}

/-! ## Shapes of related stores -/

/-- The stores hold the same for values to refer to, but for bindings of namespaces and for
functions, which have the same names. -/
structure Store.ShapedAlike (s t : Store) : Prop where
  eq : t = { s with functions := t.functions, namespaces := t.namespaces }
  names : ∀ r, (t.getFunction? r).map Function.name = (s.getFunction? r).map Function.name

theorem Store.shapedAlike_bind (s : Store) (r : NamespaceRef) (x : String) (v : Value) :
    s.ShapedAlike (s.bind r x v) := ⟨rfl, fun _ => rfl⟩

theorem Store.Twin.shapedAlike {s t : Store} (hst : s.Twin h t) : s.ShapedAlike t where
  eq := by
    rw [hst.eq]
  names := hst.names

namespace Store.ShapedAlike

variable {s t : Store}

mutual

theorem unfold (hst : s.ShapedAlike t) (inside : Container → Shape) :
    ∀ v : Value, v.unfold t inside = v.unfold s inside
  | .function r => by
    simp only [Value.unfold]
    have hr := hst.names r
    cases ht : t.getFunction? r <;> cases hs : s.getFunction? r <;> simp_all
  | .tuple _ items => by simp only [Value.unfold, unfoldAll hst inside items]
  | .method _ m => by
    rw [hst.eq]
    cases m <;> rfl
  | .recordType r => by
    rw [hst.eq]
    rfl
  | .none_ | .bool _ | .int _ | .float _ | .str _ _ | .list _ | .dict _ | .range _ | .builtin _
  | .native _ _ _ | .slot _ | .record _ => rfl

theorem unfoldAll (hst : s.ShapedAlike t) (inside : Container → Shape) :
    ∀ vs : List Value, Value.unfoldAll t inside vs = Value.unfoldAll s inside vs
  | [] => rfl
  | v :: vs =>
      by rw [Value.unfoldAll, Value.unfoldAll, unfold hst inside v, unfoldAll hst inside vs]

end

variable (hst : s.ShapedAlike t)
include hst

theorem unfoldEntries (inside : Container → Shape) (es : List (String × Value)) :
    Value.unfoldEntries t inside es = Value.unfoldEntries s inside es := by
  induction es with
  | nil => rfl
  | cons e es ih =>
    obtain ⟨k, v⟩ := e
    rw [Value.unfoldEntries, Value.unfoldEntries, hst.unfold, ih]

theorem containerShape (depth : Nat) (c : Container) :
    t.containerShape depth c = s.containerShape depth c := by
  induction depth generalizing c with
  | zero =>
    rw [Store.containerShape, Store.containerShape, hst.eq]
    cases c <;> rfl
  | succ depth ih =>
    have hinside : t.containerShape depth = s.containerShape depth := funext ih
    have hlists : t.listItems = s.listItems := by rw [hst.eq]; rfl
    have hdicts : t.dictEntries = s.dictEntries := by rw [hst.eq]; rfl
    have hrecords : t.getRecord = s.getRecord := by rw [hst.eq]; rfl
    have htypes : t.typeOf = s.typeOf := by rw [hst.eq]; rfl
    cases c <;>
      simp only [Store.containerShape, hinside, hlists, hdicts, hrecords, htypes, hst.unfoldAll,
        hst.unfoldEntries]

/-- Values have the same shape in stores that differ in definitions and bindings alone. -/
theorem shape (v : Value) : t.shape v = s.shape v := by
  have hdepth : t.shapeDepth = s.shapeDepth := by rw [hst.eq]; rfl
  rw [Store.shape, Store.shape, hdepth, hst.unfold, funext (hst.containerShape s.shapeDepth)]

theorem equal (v w : Value) : t.equal v w = s.equal v w := by
  rw [Store.equal, Store.equal, hst.shape, hst.shape]

end Store.ShapedAlike

theorem Store.Twin.shape {s t : Store} (hst : s.Twin h t) (v : Value) : t.shape v = s.shape v :=
  hst.shapedAlike.shape v

/-- An item that a value has holds nothing that is hidden. -/
def Run.Member.Avoids (h : Hidden) : Run.Member → Prop
  | .value v => v.Avoids h
  | .text _ => True

namespace Kinship

open Run

variable {R : Store → Store → Prop} (K : Kinship h R)
include K

/-! ## Looking things up -/

theorem shaped {α : Type} (f : Shape → α) (v : Value) :
    Respects R anything (Run.view fun s => f (s.shape v)) :=
  .view fun _ _ hst => ⟨by rw [(K.twin hst).shape], trivial⟩

theorem typeName (v : Value) : Respects R anything (Run.typeName v) :=
  K.view (fun _ _ => by cases v <;> rfl) fun _ _ => trivial

theorem repr (v : Value) : Respects R anything (Run.repr v) := K.shaped Shape.repr v

theorem text (v : Value) : Respects R anything (Run.text v) := K.shaped Shape.text v

theorem isTruthy (v : Value) : Respects R anything (Run.isTruthy v) :=
  K.view (fun _ _ => by cases v <;> rfl) fun _ _ => trivial

theorem size? (v : Value) : Respects R anything (Run.view (·.size? v)) :=
  K.view (fun _ _ => by cases v <;> rfl) fun _ _ => trivial

theorem equal (a b : Value) : Respects R anything (Run.equal a b) := by
  have hview : Respects R anything (Run.view (·.equal a b)) :=
    .view fun _ _ hst => ⟨by simp only [Store.equal, (K.twin hst).shape], trivial⟩
  refine hview.bind fun answer? _ => ?_
  cases answer? with
  | some answer => exact .pure trivial
  | none => exact .throw _

theorem order? (a b : Value) : Respects R anything (Run.order? a b) := by
  have hview : Respects R anything (Run.view (·.compare a b)) :=
    .view fun _ _ hst => ⟨by simp only [Store.compare, (K.twin hst).shape], trivial⟩
  refine hview.bind fun c _ => ?_
  cases c with
  | order o => exact .pure trivial
  | unordered => exact .pure trivial
  | endless => exact .throw _

theorem sequenceItems? {v : Value} (hv : v.Avoids h) :
    Respects R (fun o => ∀ vs, o = some vs → ∀ w ∈ vs, w.Avoids h)
      (Run.view (·.sequenceItems? v)) :=
  K.view (fun _ _ => by cases v <;> rfl) fun _ hs _ hvs => hs.sequenceItems? hv hvs

theorem listItems (r : ListRef) :
    Respects R (fun xs => ∀ v ∈ xs.toList, v.Avoids h) (Run.view (·.listItems r)) :=
  K.view (fun _ _ => rfl) fun _ hs => hs.listItems r

theorem dictEntries (r : DictRef) :
    Respects R (Table.Avoids h) (Run.view (·.dictEntries r)) :=
  K.view (fun _ _ => rfl) fun _ hs => hs.dictEntries r

theorem getRecord (r : RecordRef) :
    Respects R (fun x => ∀ v ∈ x.slots, v.Avoids h) (Run.view (·.getRecord r)) :=
  K.view (fun _ _ => rfl) fun _ hs => hs.slots r

theorem getRecordType (r : RecordTypeRef) :
    Respects R (fun t => t.attrs.Avoids h) (Run.view (·.getRecordType r)) :=
  K.view (fun _ _ => rfl) fun _ hs => hs.attrs r

theorem typeOf (r : RecordRef) :
    Respects R (fun t => t.attrs.Avoids h) (Run.view (·.typeOf r)) :=
  K.view (fun _ _ => rfl) fun _ hs => hs.attrs _

/-! ## Making values -/

omit K in
theorem fail {α : Type} {P : α → Prop} (cause : Fault) : Respects R P (Run.fail cause : Run α) :=
  .throw _

omit K in
theorem failTyping {α : Type} {P : α → Prop} (what : Fault.Typing) :
    Respects R P (Run.failTyping what : Run α) := .throw _

omit K in
theorem failDomain {α : Type} {P : α → Prop} (what : Fault.Domain) :
    Respects R P (Run.failDomain what : Run α) := .throw _

omit K in
theorem ofExcept {α : Type} {P : α → Prop} {x : Except Fault α} (hx : ∀ a, x = .ok a → P a) :
    Respects R P (Run.ofExcept x) := by
  cases x with
  | ok a => exact .pure (hx a rfl)
  | error e => exact .throw _

/-- A fault that names the type of a value. -/
theorem failNaming {α : Type} {P : α → Prop} (v : Value) (cause : String → Fault) :
    Respects R P (do Run.fail (cause (← Run.typeName v)) : Run α) :=
  (K.typeName v).bind fun _ _ => fail _

/-- A fault that names the types of two values. -/
theorem failNaming₂ {α : Type} {P : α → Prop} (v w : Value) (cause : String → String → Fault) :
    Respects R P (do Run.fail (cause (← Run.typeName v) (← Run.typeName w)) : Run α) :=
  (K.typeName v).bind fun _ _ => K.failNaming w _

theorem newIdentity : Respects R anything (Run.make Store.newIdentity) :=
  K.make ⟨fun _ _ => rfl, fun _ => rfl⟩ (fun _ _ => rfl) fun _ hs => ⟨trivial, hs.newIdentity⟩

theorem newStr (text : String) : Respects R (Value.Avoids h) (Run.newStr text) :=
  K.newIdentity.bind fun _ _ => .pure (by simp)

theorem newStrs (texts : List String) :
    Respects R (fun vs => ∀ v ∈ vs, v.Avoids h) (Run.newStrs texts) :=
  .mapM fun t _ => K.newStr t

theorem newTuple {items : List Value} (hitems : ∀ v ∈ items, v.Avoids h) :
    Respects R (Value.Avoids h) (Run.newTuple items) :=
  K.newIdentity.bind fun _ _ => .pure (by simpa using hitems)

theorem newList {items : List Value} (hitems : ∀ v ∈ items, v.Avoids h) :
    Respects R (Value.Avoids h) (Run.newList items) := by
  have hmake : Respects R anything (Run.make (·.newList items.toArray)) :=
    K.make ⟨fun _ _ => rfl, fun _ => rfl⟩ (fun _ _ => rfl)
      fun _ hs => ⟨trivial, hs.newList (by simpa using hitems)⟩
  exact hmake.bind fun _ _ => .pure (by simp)

theorem newDict {entries : Table Value} (hentries : entries.Avoids h) :
    Respects R (Value.Avoids h) (Run.newDict entries) := by
  have hmake : Respects R anything (Run.make (·.newDict entries)) :=
    K.make ⟨fun _ _ => rfl, fun _ => rfl⟩ (fun _ _ => rfl)
      fun _ hs => ⟨trivial, hs.newDict hentries⟩
  exact hmake.bind fun _ _ => .pure (by simp)

theorem newMethod (m : Method) : Respects R (Value.Avoids h) (Run.newMethod m) :=
  K.newIdentity.bind fun _ _ => .pure (by simp)

theorem newNative (kind : Native) {held : List (String × Value)}
    (hheld : ∀ e ∈ held, e.2.Avoids h) : Respects R (Value.Avoids h) (Run.newNative kind held) :=
  K.newIdentity.bind fun _ _ => .pure (by simpa using hheld)

/-! ## Items -/

theorem take {m : Member} (hm : m.Avoids h) : Respects R (Value.Avoids h) m.take := by
  cases m with
  | value v => exact .pure hm
  | text t => exact K.newStr t

theorem members {v : Value} (hv : v.Avoids h) :
    Respects R (fun ms => ∀ m ∈ ms, m.Avoids h) (Run.members v) := by
  refine (K.sequenceItems? hv).bind fun o ho => ?_
  cases o with
  | some items =>
    refine .pure fun m hm => ?_
    obtain ⟨w, hw, rfl⟩ := List.mem_map.1 hm
    exact ho items rfl w hw
  | none =>
    cases v
    case dict r =>
      refine (K.dictEntries r).bind fun t _ => .pure fun m hm => ?_
      obtain ⟨k, -, rfl⟩ := List.mem_map.1 hm
      trivial
    case str i text =>
      refine .pure fun m hm => ?_
      obtain ⟨c, -, rfl⟩ := List.mem_map.1 hm
      trivial
    case range r =>
      refine .pure fun m hm => ?_
      obtain ⟨n, -, rfl⟩ := List.mem_map.1 hm
      exact trivial
    all_goals exact K.failNaming _ fun t => .typing (.notIterable t)

theorem items {v : Value} (hv : v.Avoids h) :
    Respects R (fun vs => ∀ w ∈ vs, w.Avoids h) (Run.items v) :=
  (K.members hv).bind fun _ hms => .mapM fun m hm => K.take (hms m hm)

theorem place (container index : Value) (length : Nat) :
    Respects R anything (Run.place container length index) := by
  unfold Run.place
  split
  · exact K.failNaming₂ container index fun a b => .typing (.indexNotInt a b)
  · split
    · exact .pure trivial
    · exact fail _

theorem dictKey (key : Value) : Respects R anything (Run.dictKey key) := by
  unfold Run.dictKey
  split
  · exact .pure trivial
  · exact K.failNaming key fun t => .typing (.dictKey t)

theorem itemAt (container index : Value) (length : Nat) {item? : Nat → Option Value}
    (hitem : ∀ i v, item? i = some v → v.Avoids h) :
    Respects R (Value.Avoids h) (Run.itemAt container length item? index) := by
  refine (K.place container index length).bind fun i _ => ?_
  split
  · next v hv => exact .pure (hitem i v hv)
  · exact fail _

theorem getItem {container : Value} (hc : container.Avoids h) (index : Value) :
    Respects R (Value.Avoids h) (Run.getItem container index) := by
  unfold Run.getItem
  split
  · next r =>
    refine (K.dictKey index).bind fun key _ => (K.dictEntries r).bind fun t ht => ?_
    split
    · next v hv => exact .pure (ht.get? hv)
    · exact fail _
  · next i text =>
    refine (K.place _ index _).bind fun j _ => ?_
    split
    · exact K.newStr _
    · exact fail _
  · next r =>
    refine K.itemAt _ index _ fun i v hv => ?_
    obtain ⟨n, -, rfl⟩ := Option.map_eq_some_iff.1 hv
    exact Value.avoids_int
  · next i vs =>
    refine K.itemAt _ index _ fun j v hv => ?_
    exact Value.avoids_tuple.1 hc v (List.mem_of_getElem? hv)
  · next r =>
    refine (K.listItems r).bind fun xs hxs => K.itemAt _ index _ fun j v hv => ?_
    exact hxs v (by simpa using Array.mem_of_getElem? hv)
  · next r =>
    refine (K.getRecord r).bind fun x hx => K.itemAt _ index _ fun j v hv => ?_
    exact hx v (List.mem_of_getElem? hv)
  · exact K.failNaming container fun t => .typing (.notSubscriptable t)

theorem modifySlots (r : RecordRef) {g : List Value → List Value}
    (hg : ∀ vs, (∀ v ∈ vs, v.Avoids h) → ∀ v ∈ g vs, v.Avoids h) :
    Respects R anything (modify (·.modifySlots r g) : Run PUnit) :=
  K.changing ⟨fun _ _ => rfl, fun _ => rfl⟩ fun _ hs => hs.modifySlots r hg

theorem modifyList (r : ListRef) {g : Array Value → Array Value}
    (hg : ∀ xs, (∀ v ∈ xs.toList, v.Avoids h) → ∀ v ∈ (g xs).toList, v.Avoids h) :
    Respects R anything (modify (·.modifyList r g) : Run PUnit) :=
  K.changing ⟨fun _ _ => rfl, fun _ => rfl⟩ fun _ hs => hs.modifyList r hg

theorem modifyDict (r : DictRef) {g : Table Value → Table Value}
    (hg : ∀ t, t.Avoids h → (g t).Avoids h) :
    Respects R anything (modify (·.modifyDict r g) : Run PUnit) :=
  K.changing ⟨fun _ _ => rfl, fun _ => rfl⟩ fun _ hs => hs.modifyDict r hg

theorem setSlot (r : RecordRef) (i : Nat) {v : Value} (hv : v.Avoids h) :
    Respects R anything (Run.setSlot r i v) := by
  refine (K.getRecord r).bind fun x _ => ?_
  dsimp only
  split
  · refine K.modifySlots r fun vs hvs w hw => ?_
    rcases List.mem_or_eq_of_mem_set hw with hw | rfl
    · exact hvs w hw
    · exact hv
  · exact fail _

theorem setItem (container index : Value) {v : Value} (hv : v.Avoids h) :
    Respects R anything (Run.setItem container index v) := by
  unfold Run.setItem
  split
  · next r =>
    refine (K.dictKey index).bind fun key _ => ?_
    exact K.modifyDict r fun t ht => ht.insert hv key
  · next r =>
    refine (K.listItems r).bind fun xs _ => (K.place _ index _).bind fun i _ => ?_
    refine K.modifyList r fun ys hys w hw => ?_
    rw [Array.toList_setIfInBounds] at hw
    rcases List.mem_or_eq_of_mem_set hw with hw | rfl
    · exact hys w hw
    · exact hv
  · next r =>
    refine (K.typeOf r).bind fun t _ => (K.place _ index _).bind fun i _ => ?_
    exact K.setSlot r i hv
  · exact K.failNaming container fun t => .typing (.noItemAssignment t)

end Kinship

end StagedScript
