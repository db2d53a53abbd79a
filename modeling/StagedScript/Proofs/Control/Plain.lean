import StagedScript.Proofs.Basic
import StagedScript.Proofs.Comparing.Order
import StagedScript.Run.Attribute
import StagedScript.Run.Frame
import StagedScript.Run.Item

/-!
# What operations do besides their work

Whatever the language offers to programs, short of calling a value, executes no statement: it
leaves the functions in the store as they are, and its errors have no place yet.  Nor is any of
these errors about a statement, that is about one that leaves what it does not stand in, or one that
assigns to what is no target.  A comparison brings the process down only where a container holds
itself.
-/

namespace StagedScript

/-- The control statement that a cause is about. -/
def Fault.stray? : Fault → Option Fault.Stray
  | .stray what => some what
  | _ => none

/-- Whether a cause is about a value and not about a statement. -/
def Fault.isOrdinary : Fault → Bool
  | .stray _ | .typing .notAssignable => false
  | _ => true

/-- An ordinary cause is about no control statement. -/
theorem Fault.stray?_of_isOrdinary {cause : Fault} (h : cause.isOrdinary = true) :
    cause.stray? = none := by
  cases cause with
  | stray what => cases h
  | _ => rfl

/-- An ordinary cause is not that an expression is no target. -/
theorem Fault.ne_of_isOrdinary {cause : Fault} (h : cause.isOrdinary = true) :
    cause ≠ .typing .notAssignable := by
  rintro rfl
  cases h

/-- What stopped a computation is no comparison without an end, unless a container holds itself. -/
def Stop.Founded (stop : Stop) (t : Store) : Prop :=
  stop = .aborted .endlessComparison → t.Looped

/-- A stop by an error that has no place and is not about a statement, or by what brings the process
down. -/
inductive Stop.Plain : Stop → Store → Prop
  | error {cause : Fault} {t : Store} (h : cause.isOrdinary = true) : Plain (.error ⟨none, cause⟩) t
  | aborted {why : Abort} {t : Store} (h : Stop.Founded (.aborted why) t) : Plain (.aborted why) t

theorem Stop.Plain.founded {stop : Stop} {t : Store} (h : stop.Plain t) : stop.Founded t := by
  cases h with
  | error => exact nofun
  | aborted h => exact h

/-- A step whose faults are not about statements. -/
def Except.Plain {α : Type} (x : Except Fault α) : Prop :=
  ∀ cause, x = .error cause → cause.isOrdinary = true

namespace Run

variable {α β γ : Type} {I : Store → Prop} {E : Stop → Store → Prop}

/-! ## What computations keep -/

/-- The store has a property in the end, and so has what stopped the computation, if it was stopped,
together with the store. -/
inductive Landing (I : Store → Prop) (E : Stop → Store → Prop) : EStateM.Result Stop Store α → Prop
  | ok {a : α} {t : Store} : I t → Landing I E (.ok a t)
  | error {stop : Stop} {t : Store} : I t → E stop t → Landing I E (.error stop t)

/-- The computation keeps a property of the store, and what stops it has another. -/
def Keeps (I : Store → Prop) (E : Stop → Store → Prop) (x : Run α) : Prop :=
  ∀ s, I s → Landing I E (x s)

namespace Keeps

variable {x : Run α}

theorem pure (a : α) : Keeps I E (Pure.pure a : Run α) := fun _ hs => .ok hs

theorem throw {stop : Stop} (h : ∀ t, E stop t) : Keeps I E (MonadExcept.throw stop : Run α) :=
  fun t hs => .error hs (h t)

theorem view (f : Store → α) : Keeps I E (Run.view f) := fun _ hs => .ok hs

theorem make {f : Store → α × Store} (hf : ∀ s, I s → I (f s).2) : Keeps I E (Run.make f) :=
  fun s hs => .ok (hf s hs)

theorem changing {f : Store → Store} (hf : ∀ s, I s → I (f s)) :
    Keeps I E (modify f : Run PUnit) := fun s hs => .ok (hf s hs)

theorem bind {k : α → Run β} (hx : Keeps I E x) (hk : ∀ a, Keeps I E (k a)) :
    Keeps I E (x >>= k) := by
  intro s hs
  change Landing I E (EStateM.bind x k s)
  unfold EStateM.bind
  have h := hx s hs
  generalize x s = r at h
  cases h with
  | ok ht => exact hk _ _ ht
  | error ht hstop => exact .error ht hstop

theorem map {f : α → β} (hx : Keeps I E x) : Keeps I E (f <$> x) := by
  have hfx : f <$> x = x >>= fun a => Pure.pure (f a) := (bind_pure_comp f x).symm
  rw [hfx]
  exact hx.bind fun a => .pure (f a)

theorem mapM {f : γ → Run α} {l : List γ} (hf : ∀ c, Keeps I E (f c)) :
    Keeps I E (l.mapM f) := by
  induction l with
  | nil => exact .pure []
  | cons c l ih =>
    rw [List.mapM_cons]
    exact (hf c).bind fun a => ih.bind fun as => .pure (a :: as)

theorem forM_mem {f : γ → Run PUnit} {l : List γ} (hf : ∀ c ∈ l, Keeps I E (f c)) :
    Keeps I E (l.forM f) := by
  induction l with
  | nil => exact .pure ()
  | cons c l ih =>
    obtain ⟨hc, hl⟩ := List.forall_mem_cons.1 hf
    exact hc.bind fun _ => ih hl

theorem foldlM {f : α → γ → Run α} {l : List γ} (hf : ∀ a c, Keeps I E (f a c)) (a : α) :
    Keeps I E (l.foldlM f a) := by
  induction l generalizing a with
  | nil => exact .pure a
  | cons c l ih =>
    rw [List.foldlM_cons]
    exact (hf a c).bind ih

end Keeps

/-- A computation that executes no statement: it leaves the functions as they are, and its errors
have no place and are not about statements. -/
def Plain (x : Run α) : Prop := ∀ fs, Keeps (fun s => s.functions = fs) Stop.Plain x

namespace Plain

variable {x : Run α}

/-- A plain computation keeps every property of the functions. -/
theorem keeps (hx : Plain x) (hI : ∀ {s t : Store}, t.functions = s.functions → I s → I t)
    (hE : ∀ {stop : Stop} {t : Store}, stop.Plain t → E stop t) : Keeps I E x := by
  intro s hs
  -- The functions in the end are those that there were when the computation started.
  have h := hx s.functions s rfl
  generalize x s = r at h
  cases h with
  | ok ht => exact .ok (hI ht hs)
  | error ht hstop => exact .error (hI ht hs) (hE hstop)

/-! ### Steps -/

theorem pure (a : α) : Plain (Pure.pure a : Run α) := fun _ => .pure a

theorem bind {k : α → Run β} (hx : Plain x) (hk : ∀ a, Plain (k a)) : Plain (x >>= k) :=
  fun fs => (hx fs).bind fun a => hk a fs

theorem map {f : α → β} (hx : Plain x) : Plain (f <$> x) := fun fs => (hx fs).map

theorem mapM {f : γ → Run α} {l : List γ} (hf : ∀ c, Plain (f c)) : Plain (l.mapM f) :=
  fun fs => .mapM fun c => hf c fs

theorem foldlM {f : α → γ → Run α} {l : List γ} (hf : ∀ a c, Plain (f a c)) (a : α) :
    Plain (l.foldlM f a) := fun fs => .foldlM (fun b c => hf b c fs) a

theorem view (f : Store → α) : Plain (Run.view f) := fun _ => .view f

theorem make {f : Store → α × Store} (hf : ∀ s, (f s).2.functions = s.functions) :
    Plain (Run.make f) := fun _ => .make fun s hs => (hf s).trans hs

theorem changing {f : Store → Store} (hf : ∀ s, (f s).functions = s.functions) :
    Plain (modify f : Run PUnit) := fun _ => .changing fun s hs => (hf s).trans hs

theorem fail {cause : Fault} (h : cause.isOrdinary = true) : Plain (Run.fail cause : Run α) :=
  fun _ => .throw fun _ => .error h

theorem failTyping {what : Fault.Typing} (h : (Fault.typing what).isOrdinary = true) :
    Plain (Run.failTyping what : Run α) := fail h

theorem failDomain (what : Fault.Domain) : Plain (Run.failDomain what : Run α) := fail rfl

theorem ofExcept {x : Except Fault α} (hx : Except.Plain x) : Plain (Run.ofExcept x) := by
  cases x with
  | ok a => exact .pure a
  | error cause => exact .fail (hx cause rfl)

/-! ### Comparisons -/

theorem equal (a b : Value) : Plain (Run.equal a b) := by
  intro fs s hs
  cases h : s.equal a b with
  | none =>
    rw [equal_of_none h]
    exact .error hs (.aborted fun _ => Store.looped_of_equal_eq_none h)
  | some answer =>
    rw [equal_of_some h]
    exact .ok hs

theorem order? (a b : Value) : Plain (Run.order? a b) := by
  intro fs s hs
  cases h : s.compare a b with
  | endless =>
    rw [order?_of_endless h]
    exact .error hs (.aborted fun _ => Store.looped_of_compare_eq_endless h)
  | unordered =>
    rw [order?_of_unordered h]
    exact .ok hs
  | order o =>
    rw [order?_of_order h]
    exact .ok hs

/-- A fault that names the type of a value. -/
theorem failNaming {v : Value} {what : String → Fault.Typing}
    (h : ∀ type, (Fault.typing (what type)).isOrdinary = true) :
    Plain (do Run.failTyping (what (← Run.typeName v)) : Run α) :=
  (view _).bind fun type => failTyping (h type)

/-! ### Making values -/

theorem newIdentity : Plain (Run.make Store.newIdentity) := make fun _ => rfl

theorem newStr (text : String) : Plain (Run.newStr text) := newIdentity.bind fun _ => pure _

theorem newStrs (texts : List String) : Plain (Run.newStrs texts) := mapM newStr

theorem newTuple (items : List Value) : Plain (Run.newTuple items) :=
  newIdentity.bind fun _ => pure _

theorem newList (items : List Value) : Plain (Run.newList items) :=
  (make fun _ => rfl).bind fun _ => pure _

theorem newDict (entries : Table Value) : Plain (Run.newDict entries) :=
  (make fun _ => rfl).bind fun _ => pure _

theorem newMethod (m : Method) : Plain (Run.newMethod m) := newIdentity.bind fun _ => pure _

theorem newNative (kind : Native) (held : List (String × Value)) :
    Plain (Run.newNative kind held) := newIdentity.bind fun _ => pure _

theorem newRecord (type : RecordTypeRef) (slots : List Value) : Plain (Run.newRecord type slots) :=
  make fun _ => rfl

/-! ### Names -/

theorem lookup (f : Frame) (name : String) : Plain (Run.lookup f name) := by
  refine (view _).bind fun v? => ?_
  cases v? with
  | some v => exact pure v
  | none => exact fail rfl

theorem bindName (f : Frame) (name : String) (v : Value) : Plain (Run.bind f name v) :=
  changing fun _ => rfl

/-! ### Items -/

theorem take (m : Member) : Plain m.take := by
  cases m with
  | value v => exact pure v
  | text t => exact newStr t

theorem members (v : Value) : Plain (Run.members v) := by
  refine (view _).bind fun items? => ?_
  cases items? with
  | some items => exact pure _
  | none =>
    cases v
    case dict r => exact (view _).bind fun _ => pure _
    case str i text => exact pure _
    case range r => exact pure _
    all_goals exact failNaming fun _ => rfl

theorem items (v : Value) : Plain (Run.items v) := (members v).bind fun _ => mapM take

theorem place (container index : Value) (length : Nat) :
    Plain (Run.place container length index) := by
  unfold Run.place
  split
  · exact (view _).bind fun _ => failNaming fun _ => rfl
  · split
    · exact pure _
    · exact fail rfl

theorem dictKey (key : Value) : Plain (Run.dictKey key) := by
  unfold Run.dictKey
  split
  · exact pure _
  · exact failNaming fun _ => rfl

theorem itemAt (container index : Value) (length : Nat) (item? : Nat → Option Value) :
    Plain (Run.itemAt container length item? index) := by
  refine (place container index length).bind fun i => ?_
  split
  · exact pure _
  · exact fail rfl

theorem getItem (container index : Value) : Plain (Run.getItem container index) := by
  unfold Run.getItem
  split
  · refine (dictKey index).bind fun key => (view _).bind fun entries => ?_
    split
    · exact pure _
    · exact fail rfl
  · refine (place _ index _).bind fun i => ?_
    split
    · exact newStr _
    · exact fail rfl
  · exact itemAt _ index _ _
  · exact itemAt _ index _ _
  · exact (view _).bind fun _ => itemAt _ index _ _
  · exact (view _).bind fun _ => itemAt _ index _ _
  · exact failNaming fun _ => rfl

theorem modifySlots (r : RecordRef) (g : List Value → List Value) :
    Plain (modify (·.modifySlots r g) : Run PUnit) := changing fun _ => rfl

theorem setSlot (r : RecordRef) (i : Nat) (v : Value) : Plain (Run.setSlot r i v) := by
  refine (view _).bind fun x => ?_
  dsimp only
  split
  · exact modifySlots r _
  · exact fail rfl

theorem setItem (container index v : Value) : Plain (Run.setItem container index v) := by
  unfold Run.setItem
  split
  · exact (dictKey index).bind fun key => changing fun _ => rfl
  · exact (view _).bind fun _ => (place _ index _).bind fun i => changing fun _ => rfl
  · exact (view _).bind fun _ => (place _ index _).bind fun i => setSlot _ i v
  · exact failNaming fun _ => rfl

/-! ### Attributes -/

theorem noAttribute (v : Value) (name : String) : Plain (Run.noAttribute v name : Run α) :=
  (view _).bind fun _ => fail rfl

theorem newDoc (doc? : Option String) : Plain (Run.newDoc doc?) := by
  cases doc? with
  | some text => exact newStr text
  | none => exact pure _

theorem newFields (t : RecordType) : Plain (Run.newFields t) :=
  (newStrs t.fields).bind fun _ => newTuple _

theorem recordAttr (r : RecordRef) (name : String) : Plain (Run.recordAttr r name) := by
  refine (view _).bind fun t => (view _).bind fun v? => ?_
  split
  · exact pure _
  · split
    · exact newFields t
    · exact (view _).bind fun _ => pure _
    · exact newDoc t.doc?
    · split
      · exact pure _
      · exact noAttribute _ _

theorem recordTypeAttr (r : RecordTypeRef) (name : String) : Plain (Run.recordTypeAttr r name) := by
  refine (view _).bind fun t => ?_
  split
  · exact newStr _
  · exact newDoc _
  · exact newFields t
  · split
    · exact newStr _
    · exact noAttribute _ _
  · split
    · exact pure _
    · exact noAttribute _ _

theorem functionAttr (r : FunctionRef) (name : String) : Plain (Run.functionAttr r name) := by
  refine (view _).bind fun f? => ?_
  split
  · exact newStr _
  · exact newDoc _
  · exact noAttribute _ _

theorem getAttr (v : Value) (name : String) : Plain (Run.getAttr v name) := by
  unfold Run.getAttr
  split
  · exact newMethod _
  · split
    · exact recordAttr _ _
    · exact recordTypeAttr _ _
    · exact functionAttr _ _
    · exact noAttribute _ _

/-- An attribute that is not there is no error where another value is given for it. -/
theorem getAttrOr (v other : Value) (name : String) : Plain (Run.getAttrOr v name other) := by
  intro fs s hs
  have h := getAttr v name fs s hs
  unfold Run.getAttrOr
  generalize Run.getAttr v name s = r at h
  cases h with
  | ok ht => exact .ok ht
  | error ht hstop =>
    -- All errors but that of a missing attribute are handed on.
    dsimp only
    split
    · exact .ok ht
    · exact .error ht hstop

theorem setField (r : RecordRef) (name : String) (v : Value) : Plain (Run.setField r name v) := by
  refine (view _).bind fun t => ?_
  split
  · exact setSlot r _ v
  · exact fail rfl

theorem setAttr (target v : Value) (name : String) : Plain (Run.setAttr target name v) := by
  unfold Run.setAttr
  split
  · exact setField _ _ v
  · exact noAttribute _ _

end Plain

end Run

end StagedScript
