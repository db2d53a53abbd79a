import StagedScript.Proofs.Alike.Values
import StagedScript.Proofs.Records.Slots
import StagedScript.Run.Builtin

/-!
# Attributes, methods, operators and builtins

What the language itself offers to programs respects every relation of a `Kinship`.
-/

namespace StagedScript

/-- What follows on a look at the store is given what is seen. -/
theorem Run.view_bind {α β : Type} (f : Store → α) (k : α → Run β) (s : Store) :
    (Run.view f >>= k) s = k (f s) s := rfl

variable {h : Hidden}

/-- No argument holds anything that is hidden. -/
structure Arguments.Avoids (h : Hidden) (args : Arguments) : Prop where
  positional : ∀ v ∈ args.positional, v.Avoids h
  named : args.named.Avoids h

theorem Arguments.Avoids.ofList {vs : List Value} (hvs : ∀ v ∈ vs, v.Avoids h) :
    (Arguments.ofList vs).Avoids h := ⟨hvs, Table.avoids_empty⟩

namespace RecordType

theorem fill_avoids (t : RecordType) {slots : List Value} {values : List (String × Value)}
    (hslots : ∀ v ∈ slots, v.Avoids h) (hvalues : ∀ e ∈ values, e.2.Avoids h) :
    ∀ v ∈ t.fill slots values, v.Avoids h := by
  induction values generalizing slots with
  | nil => exact hslots
  | cons e values ih =>
    refine ih ?_ fun e he => hvalues e (List.mem_cons_of_mem _ he)
    intro v hv
    dsimp only at hv
    split at hv
    · exact hslots v hv
    · rcases List.mem_or_eq_of_mem_set hv with hv | rfl
      · exact hslots v hv
      · exact hvalues e (by simp)

theorem slotsOf_avoids (t : RecordType) {args : Arguments} (hargs : args.Avoids h)
    {slots : List Value} (hslots : t.slotsOf args.positional args.named = .ok slots) :
    ∀ v ∈ slots, v.Avoids h := by
  rw [slotsOf_eq] at hslots
  split at hslots
  · cases hnames : checkNames t args.positional.length args.named.entries with
    | error e => rw [hnames] at hslots; cases hslots
    | ok u =>
      rw [hnames] at hslots
      cases hslots
      refine t.fill_avoids (fun v hv => ?_) hargs.named
      rcases List.mem_append.1 hv with hv | hv
      · exact hargs.positional v hv
      · rw [List.eq_of_mem_replicate hv]
        exact trivial
  · cases hslots

theorem replaced_avoids (t : RecordType) {slots new : List Value} {updates : Table Value}
    (hslots : ∀ v ∈ slots, v.Avoids h) (hupdates : updates.Avoids h)
    (hnew : t.replaced slots updates = .ok new) : ∀ v ∈ new, v.Avoids h := by
  unfold replaced at hnew
  split at hnew
  · cases hnew
    exact t.fill_avoids hslots hupdates
  · cases hnew

end RecordType

namespace Kinship

open Run

variable {R : Store → Store → Prop} (K : Kinship h R)
include K

/-! ## Records -/

theorem newRecord (type : RecordTypeRef) {slots : List Value} (hslots : ∀ v ∈ slots, v.Avoids h) :
    Respects R anything (Run.newRecord type slots) :=
  K.make ⟨fun _ _ => rfl, fun _ => rfl⟩ (fun _ _ => rfl)
    fun _ hs => ⟨trivial, hs.newRecord hslots⟩

theorem instantiate (type : RecordTypeRef) {args : Arguments} (hargs : args.Avoids h) :
    Respects R anything (Run.instantiate type args) := by
  refine (K.getRecordType type).bind fun t _ => ?_
  refine (ofExcept fun slots hslots => ?_).bind fun slots hslots => K.newRecord type hslots
  exact t.slotsOf_avoids hargs hslots

theorem recordOf (type : RecordTypeRef) {values : List Value} (hvalues : ∀ v ∈ values, v.Avoids h) :
    Respects R anything (Run.recordOf type values) := by
  refine (K.getRecordType type).bind fun t _ => ?_
  refine (ofExcept fun slots hslots => ?_).bind fun slots hslots => K.newRecord type hslots
  unfold RecordType.slotsOfValues at hslots
  split at hslots
  · cases hslots
    exact hvalues
  · cases hslots

theorem field? (r : RecordRef) (name : String) :
    Respects R (fun o => ∀ v, o = some v → v.Avoids h) (Run.view (Run.field? · r name)) := by
  refine K.view (fun _ _ => rfl) fun s hs v hv => ?_
  obtain ⟨i, -, hi⟩ := Option.bind_eq_some_iff.1 hv
  exact hs.slots r v (List.mem_of_getElem? hi)

theorem setField (r : RecordRef) (name : String) {v : Value} (hv : v.Avoids h) :
    Respects R anything (Run.setField r name v) := by
  refine (K.typeOf r).bind fun t _ => ?_
  split
  · exact K.setSlot r _ hv
  · exact fail _

theorem replaceFields (r : RecordRef) {updates : Table Value} (hupdates : updates.Avoids h) :
    Respects R anything (Run.replaceFields r updates) := by
  refine (K.typeOf r).bind fun t _ => (K.getRecord r).bind fun x hx => ?_
  refine (ofExcept fun slots hslots => t.replaced_avoids hx hupdates hslots).bind
    fun slots hslots => ?_
  exact K.modifySlots r fun _ _ => hslots

theorem fieldTable (r : RecordRef) : Respects R (Table.Avoids h) (Run.fieldTable r) := by
  refine K.view (fun _ _ => rfl) fun s hs => Table.Avoids.ofList fun e he => ?_
  exact hs.slots r e.2 (List.of_mem_zip he).2

/-! ## Attributes -/

theorem noAttribute {α : Type} {P : α → Prop} (v : Value) (name : String) :
    Respects R P (Run.noAttribute v name : Run α) := K.failNaming v fun t => .attr t name

theorem newDoc (doc? : Option String) : Respects R (Value.Avoids h) (Run.newDoc doc?) := by
  cases doc? with
  | some text => exact K.newStr text
  | none => exact .pure trivial

theorem newFields (t : RecordType) : Respects R (Value.Avoids h) (Run.newFields t) :=
  (K.newStrs t.fields).bind fun _ hvs => K.newTuple hvs

theorem recordAttr (r : RecordRef) (name : String) :
    Respects R (Value.Avoids h) (Run.recordAttr r name) := by
  refine (K.typeOf r).bind fun t ht => (K.field? r name).bind fun o ho => ?_
  split
  · exact .pure (ho _ rfl)
  · split
    · exact K.newFields t
    · exact (K.getRecord r).bind fun x _ => .pure trivial
    · exact K.newDoc t.doc?
    · split
      · next v hv => exact .pure (ht.get? hv)
      · exact K.noAttribute _ _

theorem recordTypeAttr (r : RecordTypeRef) (name : String) :
    Respects R (Value.Avoids h) (Run.recordTypeAttr r name) := by
  refine (K.getRecordType r).bind fun t ht => ?_
  split
  · exact K.newStr _
  · exact K.newDoc _
  · exact K.newFields t
  · split
    · exact K.newStr _
    · exact K.noAttribute _ _
  · split
    · next v hv =>
      refine .pure ?_
      rcases Option.or_eq_some_iff.1 hv with hv | ⟨-, hv⟩
      · obtain ⟨i, -, rfl⟩ := Option.map_eq_some_iff.1 hv
        exact trivial
      · exact ht.get? hv
    · exact K.noAttribute _ _

/-- A function shows its name and the text that its body starts with, and is nothing else to look
at. -/
theorem card {r : FunctionRef} (hr : ¬ h.functions r) :
    Respects R anything (Run.view fun s => (s.getFunction? r).map fun f : Function =>
      (f.name, f.doc?)) := by
  refine .view fun s t hst => ⟨?_, trivial⟩
  cases hs : s.getFunction? r with
  | none =>
    have hnames := (K.twin hst).names r
    rw [hs] at hnames
    rw [Option.map_eq_none_iff.1 hnames]
  | some f =>
    obtain ⟨g, ht, hfg⟩ := (K.twin hst).functions r hr f hs
    have hname : g.name = f.name := by rw [hfg.eq]
    rw [ht, Option.map_some, Option.map_some, hfg.doc, hname]

omit K in
theorem functionAttr_eq (r : FunctionRef) (name : String) :
    Run.functionAttr r name =
      (Run.view fun s => (s.getFunction? r).map fun f : Function => (f.name, f.doc?)) >>=
        fun card =>
        match card with
        | some (x, doc?) =>
          if name = "__name__" then Run.newStr x
          else if name = "__doc__" then Run.newDoc doc?
          else Run.noAttribute (.function r) name
        | none => Run.noAttribute (.function r) name := by
  funext s
  rw [Run.functionAttr, Run.view_bind, Run.view_bind]
  by_cases hname : name = "__name__"
  · subst hname
    cases s.getFunction? r <;> rfl
  · by_cases hdoc : name = "__doc__"
    · subst hdoc
      cases s.getFunction? r <;> rfl
    · cases s.getFunction? r <;> simp [hname, hdoc]

theorem functionAttr {r : FunctionRef} (hr : ¬ h.functions r) (name : String) :
    Respects R (Value.Avoids h) (Run.functionAttr r name) := by
  rw [functionAttr_eq]
  refine (K.card hr).bind fun card _ => ?_
  split
  · split
    · exact K.newStr _
    · split
      · exact K.newDoc _
      · exact K.noAttribute _ _
  · exact K.noAttribute _ _

theorem getAttr {v : Value} (hv : v.Avoids h) (name : String) :
    Respects R (Value.Avoids h) (Run.getAttr v name) := by
  unfold Run.getAttr
  split
  · exact K.newMethod _
  · split
    · exact K.recordAttr _ _
    · exact K.recordTypeAttr _ _
    · exact K.functionAttr hv _
    · exact K.noAttribute _ _

theorem getAttrOr {v other : Value} (hv : v.Avoids h) (hother : other.Avoids h) (name : String) :
    Respects R (Value.Avoids h) (Run.getAttrOr v name other) := by
  intro s t hst
  have hattr := K.getAttr hv name s t hst
  unfold Run.getAttrOr
  generalize Run.getAttr v name s = x at hattr
  generalize Run.getAttr v name t = y at hattr
  cases hattr with
  | ok hab hst' => exact .ok hab hst'
  | error hst' =>
    dsimp only
    split
    · exact .ok ⟨rfl, hother⟩ hst'
    · exact .error hst'

theorem setAttr {target v : Value} (hv : v.Avoids h) (name : String) :
    Respects R anything (Run.setAttr target name v) := by
  unfold Run.setAttr
  split
  · exact K.setField _ _ hv
  · exact K.noAttribute _ _

/-! ## Methods -/

omit K in
theorem unknownKeyword {α : Type} {P : α → Prop} (callee name : String) :
    Respects R P (Run.unknownKeyword callee name : Run α) := .throw _

omit K in
theorem noKeywords (callee : String) (named : Table Value) :
    Respects R anything (Run.noKeywords callee named) := by
  unfold Run.noKeywords
  split
  · exact .pure trivial
  · exact unknownKeyword _ _

omit K in
theorem checkCount (callee : String) (args : List Value) (least most : Nat) :
    Respects R anything (Run.checkCount callee args least most) := by
  unfold Run.checkCount
  split
  · exact fail _
  · split
    · exact fail _
    · exact .pure trivial

theorem textArgument (callee : String) (v : Value) :
    Respects R anything (Run.textArgument callee v) := by
  unfold Run.textArgument
  split
  · exact .pure trivial
  · exact K.failNaming v fun t => .typing (.argumentNotText callee t)

omit K in
theorem argument {args : List Value} (hargs : ∀ v ∈ args, v.Avoids h) (i : Nat) :
    (Run.argument args i).Avoids h := by
  unfold Run.argument
  cases hv : args[i]? with
  | none => exact trivial
  | some v => exact hargs v (List.mem_of_getElem? hv)

theorem callListMethod (r : ListRef) (op : ListMethod) {args : List Value}
    (hargs : ∀ v ∈ args, v.Avoids h) :
    Respects R (Value.Avoids h) (Run.callListMethod r op args) := by
  cases op with
  | append =>
    refine (checkCount _ args 1 1).bind fun _ _ => ?_
    refine (K.modifyList r fun xs hxs v hv => ?_).bind fun _ _ => .pure trivial
    rw [Array.toList_append] at hv
    exact (List.mem_append.1 hv).elim (hxs v) fun hv => hargs v (by simpa using hv)
  | extend =>
    refine (checkCount _ args 1 1).bind fun _ _ => ?_
    refine (K.items (argument hargs 0)).bind fun more hmore => ?_
    refine (K.modifyList r fun xs hxs v hv => ?_).bind fun _ _ => .pure trivial
    rw [Array.toList_append] at hv
    exact (List.mem_append.1 hv).elim (hxs v) fun hv => hmore v (by simpa using hv)
  | pop =>
    refine (checkCount _ args 0 1).bind fun _ _ => (K.listItems r).bind fun xs _ => ?_
    refine (K.place _ _ _).bind fun i _ => ?_
    have hitem : Respects R (Value.Avoids h)
        (Run.view fun s => (s.listItems r)[i]?.getD .none_) := by
      refine K.view (fun _ _ => rfl) fun s hs => ?_
      cases hv : (s.listItems r)[i]? with
      | none => exact trivial
      | some v => exact hs.listItems r v (by simpa using Array.mem_of_getElem? hv)
    refine hitem.bind fun v hv => ?_
    refine (K.modifyList r fun ys hys w hw => ?_).bind fun _ _ => .pure hv
    refine hys w ?_
    unfold Array.eraseIdxIfInBounds at hw
    split at hw
    · rw [Array.toList_eraseIdx] at hw
      exact List.mem_of_mem_eraseIdx hw
    · exact hw

theorem callDictMethod (r : DictRef) (op : DictMethod) {args : List Value}
    (hargs : ∀ v ∈ args, v.Avoids h) :
    Respects R (Value.Avoids h) (Run.callDictMethod r op args) := by
  cases op with
  | items =>
    refine (checkCount _ args 0 0).bind fun _ _ => (K.dictEntries r).bind fun t ht => ?_
    have hpairs : Respects R (fun vs => ∀ v ∈ vs, v.Avoids h) (t.entries.mapM fun e => do
        Run.newTuple [← Run.newStr e.1, e.2]) := by
      refine .mapM fun e he => (K.newStr e.1).bind fun k hk => K.newTuple ?_
      simpa using ⟨hk, ht e he⟩
    exact hpairs.bind fun vs hvs => K.newList hvs
  | keys =>
    refine (checkCount _ args 0 0).bind fun _ _ => (K.dictEntries r).bind fun t _ => ?_
    exact (K.newStrs _).bind fun vs hvs => K.newList hvs
  | values =>
    refine (checkCount _ args 0 0).bind fun _ _ => (K.dictEntries r).bind fun t ht => ?_
    exact K.newList ht.values
  | get =>
    refine (checkCount _ args 1 2).bind fun _ _ => (K.dictKey _).bind fun key _ => ?_
    refine (K.dictEntries r).bind fun t ht => .pure ?_
    cases hv : t.get? key with
    | none => exact argument hargs 1
    | some v => exact ht.get? hv

theorem pieces (text : String) (separator : Value) :
    Respects R anything (Run.pieces text separator) := by
  unfold Run.pieces
  split
  · exact .pure trivial
  · refine (K.textArgument _ _).bind fun pattern _ => ?_
    split
    · exact failDomain _
    · exact .pure trivial

theorem callTextMethod (text : String) (op : TextMethod) {args : List Value}
    (hargs : ∀ v ∈ args, v.Avoids h) :
    Respects R (Value.Avoids h) (Run.callTextMethod text op args) := by
  cases op with
  | join =>
    refine (checkCount _ args 1 1).bind fun _ _ => (K.items (argument hargs 0)).bind fun vs _ => ?_
    have hparts : Respects R (fun ts => ∀ t ∈ ts, anything t)
        (vs.mapM (Run.textArgument TextMethod.join.name)) := .mapM fun v _ => K.textArgument _ v
    exact hparts.bind fun parts _ => K.newStr _
  | split =>
    refine (checkCount _ args 0 1).bind fun _ _ => (K.pieces text _).bind fun ps _ => ?_
    exact (K.newStrs _).bind fun vs hvs => K.newList hvs
  | startsWith =>
    refine (checkCount _ args 1 1).bind fun _ _ => ?_
    exact (K.textArgument _ _).bind fun start _ => .pure trivial
  | replace =>
    refine (checkCount _ args 2 2).bind fun _ _ => (K.textArgument _ _).bind fun pattern _ => ?_
    exact (K.textArgument _ _).bind fun replacement _ => K.newStr _
  | upper => exact (checkCount _ args 0 0).bind fun _ _ => K.newStr _
  | lower => exact (checkCount _ args 0 0).bind fun _ _ => K.newStr _

theorem callRecordMethod (r : RecordRef) (op : RecordMethod) {args : Arguments}
    (hargs : args.Avoids h) : Respects R (Value.Avoids h) (Run.callRecordMethod r op args) := by
  refine (checkCount _ args.positional 0 0).bind fun _ _ => ?_
  cases op with
  | asDict =>
    refine (noKeywords _ args.named).bind fun _ _ => ?_
    exact (K.fieldTable r).bind fun t ht => K.newDict ht
  | replace => exact (K.replaceFields r hargs.named).bind fun _ _ => .pure trivial

theorem callRecordTypeMethod (r : RecordTypeRef) (op : RecordTypeMethod) {args : List Value}
    (hargs : ∀ v ∈ args, v.Avoids h) :
    Respects R (Value.Avoids h) (Run.callRecordTypeMethod r op args) := by
  cases op with
  | make =>
    refine (checkCount _ args 1 1).bind fun _ _ => (K.items (argument hargs 0)).bind
      fun vs hvs => ?_
    exact (K.recordOf r hvs).bind fun _ _ => .pure trivial

theorem callMethod (m : Method) {args : Arguments} (hargs : args.Avoids h) :
    Respects R (Value.Avoids h) (Run.callMethod m args) := by
  cases m with
  | record r op => exact K.callRecordMethod r op hargs
  | list r op =>
    exact (noKeywords _ args.named).bind fun _ _ => K.callListMethod r op hargs.positional
  | dict r op =>
    exact (noKeywords _ args.named).bind fun _ _ => K.callDictMethod r op hargs.positional
  | text text op =>
    exact (noKeywords _ args.named).bind fun _ _ => K.callTextMethod text op hargs.positional
  | recordType r op =>
    exact (noKeywords _ args.named).bind fun _ _ => K.callRecordTypeMethod r op hargs.positional

end Kinship

end StagedScript
