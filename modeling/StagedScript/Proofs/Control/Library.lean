import StagedScript.Proofs.Control.Plain
import StagedScript.Run.Builtin
import StagedScript.Specialize.Decorator

/-!
# The library executes no statement

Operators, methods, builtins, what the execution of statements does with values, and how a function
is written anew.
-/

namespace StagedScript

/-! ## Faults of steps -/

namespace Except.Plain

variable {α β : Type} {x : Except Fault α}

theorem ok (a : α) : Except.Plain (.ok a : Except Fault α) := fun _ h => by cases h

theorem error {cause : Fault} (h : cause.isOrdinary = true) :
    Except.Plain (.error cause : Except Fault α) := by
  intro c hc
  cases hc
  exact h

theorem bind {k : α → Except Fault β} (hx : Except.Plain x) (hk : ∀ a, Except.Plain (k a)) :
    Except.Plain (x >>= k) := by
  cases x with
  | ok a => exact hk a
  | error cause => exact error (hx cause rfl)

theorem map {f : α → β} (hx : Except.Plain x) : Except.Plain (f <$> x) := by
  cases x with
  | ok a => exact ok (f a)
  | error cause => exact error (hx cause rfl)

theorem foldlM {f : α → β → Except Fault α} {l : List β} (hf : ∀ a b, Except.Plain (f a b))
    (a : α) : Except.Plain (l.foldlM f a) := by
  induction l generalizing a with
  | nil => exact ok a
  | cons b l ih =>
    rw [List.foldlM_cons]
    exact (hf a b).bind ih

end Except.Plain

open Except.Plain (ok error)

namespace Arithmetic

theorem plain_fit (what : Fault.Overflow) (n : Int) : Except.Plain (fit what n) := by
  unfold fit
  split
  · exact ok _
  · exact error rfl

theorem plain_power (a b : Int) : Except.Plain (power a b) := by
  unfold power
  repeat' split
  all_goals first | exact error rfl | exact plain_fit _ _

theorem plain_floorDiv (a b : Int) : Except.Plain (floorDiv a b) := by
  unfold floorDiv
  split
  · exact error rfl
  · exact plain_fit _ _

theorem plain_modulo (a b : Int) : Except.Plain (modulo a b) := by
  unfold modulo
  repeat' split
  all_goals first | exact error rfl | exact plain_fit _ _

theorem plain_shiftLeft (a b : Int) : Except.Plain (shiftLeft a b) := by
  unfold shiftLeft
  repeat' split
  all_goals first | exact ok _ | exact error rfl | exact plain_fit _ _

theorem plain_shiftRight (a b : Int) : Except.Plain (shiftRight a b) := by
  unfold shiftRight
  split
  · exact error rfl
  · exact ok _

theorem plain_ints (op : BinaryOp) (a b : Int64) : Except.Plain (ints op a b) := by
  cases op with
  | add | sub | mul => exact (plain_fit _ _).map
  | div =>
    unfold ints
    dsimp only
    split
    · exact error rfl
    · exact ok _
  | floorDiv => exact (plain_floorDiv _ _).map
  | mod => exact (plain_modulo _ _).map
  | pow =>
    unfold ints
    dsimp only
    split
    · exact ok _
    · exact (plain_power _ _).map
  | bitAnd | bitOr | bitXor => exact ok _
  | shiftLeft => exact (plain_shiftLeft _ _).map
  | shiftRight => exact (plain_shiftRight _ _).map

theorem plain_floats (op : BinaryOp) (x y : Binary64) : Except.Plain (floats op x y) := by
  have hdividing (r : Binary64) : Except.Plain
      (if y.toFloat == 0 then .error .divisionByZero else .ok r : Except Fault Binary64) := by
    split
    · exact error rfl
    · exact ok _
  cases op
  case div | floorDiv | mod => exact hdividing _
  case add | sub | mul | pow => exact ok _
  all_goals exact error rfl

theorem plain_numbers? {op : BinaryOp} {l r : Value} {result : Except Fault Value}
    (h : numbers? op l r = some result) : Except.Plain result := by
  unfold numbers? at h
  split at h
  · cases h
    exact plain_ints _ _ _
  · split at h
    · cases h
      exact (plain_floats _ _ _).map
    · cases h

theorem plain_unary (op : UnaryOp) (v : Value) (type : String) :
    Except.Plain (unary op v type) := by
  unfold unary
  split
  · exact ok _
  · exact ok _
  · split
    · exact error rfl
    · split
      · exact (plain_fit _ _).map
      · exact ok _
      · exact ok _

end Arithmetic

namespace Percent

theorem plain_convert (c : Char) (a : Argument) : Except.Plain (convert c a) := by
  unfold convert
  repeat' split
  all_goals first | exact ok _ | exact error rfl

theorem plain_fill (cs : List Char) (args : List Argument) : Except.Plain (fill cs args) := by
  fun_induction fill cs args with
  | case1 => exact ok _
  | case2 | case4 | case5 => exact error rfl
  | case3 cs args ih => exact ih.map
  | case6 c cs a args _ ih =>
    exact (plain_convert c a).bind fun text => ih.bind fun rest => ok _
  | case7 c cs args _ _ _ _ ih => exact ih.map

end Percent

namespace RecordType

theorem plain_place (t : RecordType) (filled : Nat) (slots : List (Option Value))
    (es : List (String × Value)) : Except.Plain (t.place filled slots es) := by
  fun_induction place t filled slots es with
  | case1 => exact ok _
  | case2 | case3 => exact error rfl
  | case4 _ _ _ _ _ _ _ ih => exact ih

theorem plain_slotsOf (t : RecordType) (args : List Value) (named : Table Value) :
    Except.Plain (t.slotsOf args named) := by
  unfold slotsOf
  dsimp only
  split
  · exact (plain_place t _ _ _).bind fun _ => ok _
  · exact error rfl

theorem plain_slotsOfValues (t : RecordType) (values : List Value) :
    Except.Plain (t.slotsOfValues values) := by
  unfold slotsOfValues
  split
  · exact ok _
  · exact error rfl

theorem plain_replaced (t : RecordType) (slots : List Value) (updates : Table Value) :
    Except.Plain (t.replaced slots updates) := by
  unfold replaced
  split
  · exact ok _
  · exact error rfl

section

variable (s : Store) (name : String) (body : Table Value)

theorem plain_readFields : Except.Plain (readFields name body) := by
  unfold readFields
  repeat' split
  all_goals first | exact ok _ | exact error rfl

theorem plain_checkArity (fields : Nat) : Except.Plain (checkArity s name body fields) := by
  unfold checkArity
  repeat' split
  all_goals first | exact ok _ | exact error rfl

theorem plain_checkMapping : Except.Plain (checkMapping s name body) := by
  unfold checkMapping
  split
  · exact ok _
  · exact ok _
  · exact ok _
  · exact error rfl

theorem plain_readFormat (fields : List String) : Except.Plain (readFormat s name body fields) := by
  unfold readFormat
  split
  · exact ok _
  · exact ok _
  · exact error rfl

theorem plain_checkAccessors (accessors : Table Nat) (fields : Nat) :
    Except.Plain (checkAccessors name accessors fields) := by
  unfold checkAccessors
  split
  · exact ok _
  · exact error rfl

theorem plain_ofClass (doc? : Option String) : Except.Plain (ofClass s name body doc?) := by
  refine (plain_readFields name body).bind fun fields => ?_
  refine (plain_checkArity s name body _).bind fun _ => ?_
  refine (plain_checkMapping s name body).bind fun _ => ?_
  refine (plain_readFormat s name body fields).bind fun format => ?_
  exact (plain_checkAccessors name _ _).bind fun _ => ok _

end

end RecordType

namespace Function

theorem plain_checkNames (f : Function) (count : Nat) (es : List (String × Value)) :
    Except.Plain (f.checkNames count es) := by
  fun_induction checkNames f count es with
  | case1 => exact ok _
  | case2 | case4 => exact error rfl
  | case3 _ _ _ _ _ ih => exact ih

theorem plain_fillings (f : Function) (args : Arguments) (ps : List (Param Value))
    (places : List Value) : Except.Plain (f.fillings args ps places) := by
  fun_induction fillings f args ps places with
  | case1 => exact ok _
  | case2 _ _ _ _ _ ih | case3 _ _ _ _ ih | case4 _ _ _ _ _ _ ih | case5 _ _ _ _ _ _ ih =>
    exact ih.bind fun _ => ok _
  | case6 => exact error rfl

theorem plain_bindArguments (f : Function) (args : Arguments) :
    Except.Plain (f.bindArguments args) := by
  have hplaces : Except.Plain (f.checkPlaces args.positional.length) := by
    unfold checkPlaces
    split
    · exact ok _
    · exact error rfl
  exact hplaces.bind fun _ => (f.plain_checkNames _ _).bind fun _ => f.plain_fillings _ _ _

end Function

theorem Arguments.plain_addNamed (args : Arguments) (name : String) (v : Value) :
    Except.Plain (args.addNamed name v) := by
  unfold addNamed
  split
  · exact error rfl
  · exact ok _

namespace Run.Plain

/-! ## Records -/

theorem instantiate (type : RecordTypeRef) (args : Arguments) : Plain (Run.instantiate type args) :=
  (view _).bind fun t => (ofExcept (t.plain_slotsOf _ _)).bind fun _ => newRecord type _

theorem recordOf (type : RecordTypeRef) (values : List Value) : Plain (Run.recordOf type values) :=
  (view _).bind fun t => (ofExcept (t.plain_slotsOfValues _)).bind fun _ => newRecord type _

theorem replaceFields (r : RecordRef) (updates : Table Value) :
    Plain (Run.replaceFields r updates) :=
  (view _).bind fun t => (view _).bind fun _ => (ofExcept (t.plain_replaced _ _)).bind fun _ =>
    modifySlots r _

/-! ## Operators -/

theorem checkRepeat (length count : Nat) : Plain (Run.checkRepeat length count) := by
  unfold Run.checkRepeat
  split
  · exact pure _
  · exact fail rfl

theorem repeatValue (v : Value) (n : Int64) : Plain (Run.repeatValue v n) := by
  cases v
  case str i text => exact (checkRepeat _ _).bind fun _ => newStr _
  case tuple i vs => exact (checkRepeat _ _).bind fun _ => newTuple _
  case list r => exact (view _).bind fun _ => (checkRepeat _ _).bind fun _ => newList _
  all_goals exact (view _).bind fun _ => failTyping rfl

theorem format (template : String) (args : Value) : Plain (Run.format template args) :=
  (view _).bind fun _ => (ofExcept (Percent.plain_fill _ _)).bind fun _ => pure _

theorem unsupported {α : Type} (op : BinaryOp) (l r : Value) :
    Plain (Run.unsupported op l r : Run α) := (view _).bind fun _ => failNaming fun _ => rfl

theorem binary (op : BinaryOp) (l r : Value) : Plain (Run.binary op l r) := by
  unfold Run.binary
  split
  · next result h => exact ofExcept (Arithmetic.plain_numbers? h)
  · split
    · exact newStr _
    · exact newTuple _
    · exact (view _).bind fun _ => (view _).bind fun _ => newList _
    · split
      · exact repeatValue _ _
      · exact unsupported _ _ _
    · exact (format _ _).bind fun _ => newStr _
    · exact unsupported _ _ _

theorem unary (op : UnaryOp) (v : Value) : Plain (Run.unary op v) := by
  unfold Run.unary
  split
  · exact (view _).bind fun _ => pure _
  · exact (view _).bind fun _ => ofExcept (Arithmetic.plain_unary _ _ _)

theorem remainder (a b : Int64) : Plain (Run.remainder a b) := by
  unfold Run.remainder
  split
  · exact fun _ => .throw fun _ => .aborted nofun
  · exact pure _

theorem inRange (r : Range) (n : Int64) : Plain (Run.inRange r n) := by
  unfold Run.inRange
  split
  · exact (remainder _ _).bind fun _ => pure _
  · exact pure _

theorem anyEqual (v : Value) (items : List Value) : Plain (Run.anyEqual v items) := by
  induction items with
  | nil => exact pure _
  | cons item items ih =>
    refine (equal item v).bind fun answer => ?_
    split
    · exact pure _
    · exact ih

theorem contains (container item : Value) : Plain (Run.contains container item) := by
  unfold Run.contains
  split
  · exact pure _
  · exact failNaming fun _ => rfl
  · exact (view _).bind fun _ => pure _
  · exact pure _
  · cases item.int? with
    | none => exact pure _
    | some n => exact inRange _ n
  · refine (view _).bind fun items? => ?_
    split
    · exact anyEqual _ _
    · exact failNaming fun _ => rfl

theorem compare (op : CompareOp) (l r : Value) : Plain (Run.compare op l r) := by
  unfold Run.compare
  split
  · exact equal _ _
  · exact (equal _ _).bind fun _ => pure _
  · exact pure _
  · exact pure _
  · exact contains _ _
  · exact (contains _ _).bind fun _ => pure _
  · refine (order? _ _).bind fun o? => ?_
    split
    · exact pure _
    · exact (view _).bind fun _ => failNaming fun _ => rfl

/-! ## Methods -/

theorem noKeywords (callee : String) (named : Table Value) :
    Plain (Run.noKeywords callee named) := by
  unfold Run.noKeywords
  split
  · exact pure _
  · exact failTyping rfl

theorem checkCount (callee : String) (args : List Value) (least most : Nat) :
    Plain (Run.checkCount callee args least most) := by
  unfold Run.checkCount
  split
  · exact fail rfl
  · split
    · exact fail rfl
    · exact pure _

theorem textArgument (callee : String) (v : Value) : Plain (Run.textArgument callee v) := by
  unfold Run.textArgument
  split
  · exact pure _
  · exact failNaming fun _ => rfl

theorem modifyList (r : ListRef) (g : Array Value → Array Value) :
    Plain (modify (·.modifyList r g) : Run PUnit) := changing fun _ => rfl

theorem callListMethod (r : ListRef) (op : ListMethod) (args : List Value) :
    Plain (Run.callListMethod r op args) := by
  cases op with
  | append => exact (checkCount _ _ _ _).bind fun _ => (modifyList r _).bind fun _ => pure _
  | extend =>
    exact (checkCount _ _ _ _).bind fun _ => (items _).bind fun _ =>
      (modifyList r _).bind fun _ => pure _
  | pop =>
    exact (checkCount _ _ _ _).bind fun _ => (view _).bind fun _ => (place _ _ _).bind fun _ =>
      (view _).bind fun _ => (modifyList r _).bind fun _ => pure _

theorem callDictMethod (r : DictRef) (op : DictMethod) (args : List Value) :
    Plain (Run.callDictMethod r op args) := by
  cases op with
  | items =>
    refine (checkCount _ _ _ _).bind fun _ => (view _).bind fun t => ?_
    exact (mapM fun _ => (newStr _).bind fun _ => newTuple _).bind fun _ => newList _
  | keys =>
    exact (checkCount _ _ _ _).bind fun _ => (view _).bind fun _ => (newStrs _).bind
      fun _ => newList _
  | values => exact (checkCount _ _ _ _).bind fun _ => (view _).bind fun _ => newList _
  | get =>
    exact (checkCount _ _ _ _).bind fun _ => (dictKey _).bind fun _ => (view _).bind fun _ => pure _

theorem pieces (text : String) (separator : Value) : Plain (Run.pieces text separator) := by
  unfold Run.pieces
  split
  · exact pure _
  · refine (textArgument _ _).bind fun pattern => ?_
    split
    · exact failDomain _
    · exact pure _

theorem callTextMethod (text : String) (op : TextMethod) (args : List Value) :
    Plain (Run.callTextMethod text op args) := by
  cases op with
  | join =>
    exact (checkCount _ _ _ _).bind fun _ => (items _).bind fun _ =>
      (mapM fun v => textArgument _ v).bind fun _ => newStr _
  | split =>
    exact (checkCount _ _ _ _).bind fun _ => (pieces _ _).bind fun _ => (newStrs _).bind fun _ =>
      newList _
  | startsWith => exact (checkCount _ _ _ _).bind fun _ => (textArgument _ _).bind fun _ => pure _
  | replace =>
    exact (checkCount _ _ _ _).bind fun _ => (textArgument _ _).bind fun _ =>
      (textArgument _ _).bind fun _ => newStr _
  | upper | lower => exact (checkCount _ _ _ _).bind fun _ => newStr _

theorem callMethod (m : Method) (args : Arguments) : Plain (Run.callMethod m args) := by
  cases m with
  | record r op =>
    refine (checkCount _ _ _ _).bind fun _ => ?_
    cases op with
    | asDict => exact (noKeywords _ _).bind fun _ => (view _).bind fun _ => newDict _
    | replace => exact (replaceFields r _).bind fun _ => pure _
  | list r op => exact (noKeywords _ _).bind fun _ => callListMethod r op _
  | dict r op => exact (noKeywords _ _).bind fun _ => callDictMethod r op _
  | text text op => exact (noKeywords _ _).bind fun _ => callTextMethod text op _
  | recordType r op =>
    cases op with
    | make =>
      exact (noKeywords _ _).bind fun _ => (checkCount _ _ _ _).bind fun _ =>
        (items _).bind fun _ =>
        (recordOf r _).bind fun _ => pure _

/-! ## Builtins -/

theorem optional (b : Builtin) (args : List Value) : Plain (Run.optional b args) := by
  unfold Run.optional
  split
  · exact pure _
  · exact pure _
  · exact fail rfl

theorem single (b : Builtin) (args : List Value) : Plain (Run.single b args) := by
  unfold Run.single
  split
  · exact pure _
  · exact fail rfl

theorem optionalItems (b : Builtin) (args : List Value) : Plain (Run.optionalItems b args) := by
  refine (optional b args).bind fun v? => ?_
  split
  · exact items _
  · exact pure _

theorem pair (v : Value) : Plain (Run.pair v) := by
  refine (view _).bind fun items? => ?_
  split
  · exact pure _
  · exact failTyping rfl

theorem dictSource (b : Builtin) (args : List Value) : Plain (Run.dictSource b args) := by
  refine (optional b args).bind fun v? => ?_
  split
  · exact pure _
  · exact view _
  · exact (items _).bind fun _ => (mapM pair).bind fun _ => pure _

theorem rangeArgument (v : Value) : Plain (Run.rangeArgument v) := by
  unfold Run.rangeArgument
  split
  · exact pure _
  · exact failNaming fun _ => rfl

theorem rangeOf (args : List Value) : Plain (Run.rangeOf args) := by
  refine (mapM rangeArgument).bind fun ns => ?_
  -- Whatever the arguments are, the step is checked behind them.
  have hstep (r : Range) :
      Plain (if r.step = 0 then Run.failDomain .zeroStep else Pure.pure r) := by
    split
    · exact failDomain _
    · exact pure _
  split
  · exact (pure _).bind hstep
  · exact (pure _).bind hstep
  · exact (pure _).bind hstep
  · exact (fail rfl).bind hstep

theorem textOption (named : Table Value) (name default : String) :
    Plain (Run.textOption named name default) := by
  unfold Run.textOption
  split
  · exact pure _
  · exact pure _
  · exact pure _
  · exact failNaming fun _ => rfl

theorem printed (args : Arguments) : Plain (Run.printed args) :=
  (textOption _ _ _).bind fun _ => (textOption _ _ _).bind fun _ => (noKeywords _ _).bind fun _ =>
    (mapM fun _ => view _).bind fun _ => pure _

theorem attributeName (b : Builtin) (v : Value) : Plain (Run.attributeName b v) := by
  unfold Run.attributeName
  split
  · exact pure _
  · exact failTyping rfl

theorem withStart (b : Builtin) (args : Arguments) : Plain (Run.withStart b args) := by
  refine (noKeywords _ _).bind fun _ => ?_
  split
  · exact pure _
  · exact pure _
  · exact pure _
  · exact fail rfl

theorem numbered (start : Int64) (vs : List Value) : Plain (Run.numbered start vs) := by
  induction vs generalizing start with
  | nil => exact pure _
  | cons v vs ih => exact (newTuple _).bind fun _ => (ih (start + 1)).bind fun _ => pure _

theorem extreme (op : CompareOp) (want : Ordering) (best : Value) (vs : List Value) :
    Plain (Run.extreme op want best vs) := by
  induction vs generalizing best with
  | nil => exact pure _
  | cons v vs ih =>
    refine (order? _ _).bind fun o? => ?_
    split
    · exact ih _
    · exact (view _).bind fun _ => failNaming fun _ => rfl

theorem extremeOf (b : Builtin) (op : CompareOp) (want : Ordering) (args : List Value) :
    Plain (Run.extremeOf b op want args) := by
  -- The items come from one of three places, and what is done with them is the same.
  have hrest {k : List Value → Run Value} (hnil : Plain (k []))
      (hcons : ∀ v vs, Plain (k (v :: vs))) (vs : List Value) : Plain (k vs) := by
    cases vs with
    | nil => exact hnil
    | cons v vs => exact hcons v vs
  have hextreme (v : Value) (vs : List Value) := extreme op want v vs
  unfold Run.extremeOf
  split
  · exact (fail rfl).bind (hrest (failDomain _) hextreme)
  · exact (items _).bind (hrest (failDomain _) hextreme)
  · exact (pure _).bind (hrest (failDomain _) hextreme)

theorem toInt (v : Value) : Plain (Run.toInt v) := by
  unfold Run.toInt
  split
  · dsimp only
    split
    · exact pure _
    · exact failDomain _
  · split
    · exact pure _
    · exact (view _).bind fun _ => failDomain _
  · split
    · exact pure _
    · exact failNaming fun _ => rfl

theorem absolute (v : Value) : Plain (Run.absolute v) := by
  unfold Run.absolute
  split
  · exact pure _
  · split
    · exact (ofExcept (Arithmetic.plain_fit _ _)).bind fun _ => pure _
    · exact failNaming fun _ => rfl

theorem accessor (v : Value) : Plain (Run.accessor v) := by
  unfold Run.accessor
  split
  · split
    · exact pure _
    · exact (view _).bind fun _ => failDomain _
  · exact (view _).bind fun _ => failDomain _

theorem applyBuiltin (sink : Sink) (b : Builtin) (args : Arguments) :
    Plain (Run.applyBuiltin sink b args) := by
  cases b with
  | len =>
    refine (single _ _).bind fun v => (view _).bind fun n? => ?_
    split
    · exact pure _
    · exact failNaming fun _ => rfl
  | tuple => exact (optionalItems _ _).bind fun _ => newTuple _
  | list => exact (optionalItems _ _).bind fun _ => newList _
  | dict | orderedDict => exact (dictSource _ _).bind fun _ => newDict _
  | range => exact (rangeOf _).bind fun _ => pure _
  | str =>
    refine (optional _ _).bind fun v? => ?_
    split
    · exact (view _).bind fun _ => newStr _
    · exact newStr _
  | repr => exact (single _ _).bind fun _ => (view _).bind fun _ => newStr _
  | print =>
    refine (printed _).bind fun text => (changing fun s => ?_).bind fun _ => pure _
    cases sink <;> rfl
  | getattr =>
    unfold Run.applyBuiltin
    dsimp only
    split
    · exact (attributeName _ _).bind fun _ => getAttr _ _
    · exact (attributeName _ _).bind fun _ => getAttrOr _ _ _
    · exact fail rfl
  | setattr =>
    unfold Run.applyBuiltin
    dsimp only
    split
    · exact (attributeName _ _).bind fun _ => (setAttr _ _ _).bind fun _ => pure _
    · exact fail rfl
  | zip => exact (mapM items).bind fun _ => (mapM newTuple).bind fun _ => newList _
  | enumerate =>
    refine (withStart _ _).bind fun vs => ?_
    dsimp only
    split
    · exact (items _).bind fun _ => (numbered _ _).bind fun _ => newList _
    · exact failTyping rfl
  | min | max => exact extremeOf _ _ _ _
  | sum =>
    exact (withStart _ _).bind fun vs => (items _).bind fun _ => foldlM (fun a v => binary _ a v) _
  | abs => exact (single _ _).bind absolute
  | int =>
    refine (optional _ _).bind fun v? => ?_
    split
    · exact (toInt _).bind fun _ => pure _
    · exact pure _
  | slots => exact failTyping rfl
  | slot => exact (single _ _).bind accessor

theorem callBuiltin (sink : Sink) (b : Builtin) (args : Arguments) :
    Plain (Run.callBuiltin sink b args) := by
  unfold Run.callBuiltin
  split
  · exact (noKeywords _ _).bind fun _ => applyBuiltin _ _ _
  · exact applyBuiltin _ _ _

/-! ## Arguments -/

theorem addArgument (args : Arguments) (role : ArgRole) (v : Value) :
    Plain (Run.addArgument args role v) := by
  cases role with
  | positional => exact pure _
  | star => exact (items v).bind fun _ => pure _
  | keyword name => exact ofExcept (args.plain_addNamed name v)
  | starStar =>
    cases v
    case dict r =>
      exact (view _).bind fun _ =>
        ofExcept (.foldlM (fun args e => args.plain_addNamed e.1 e.2) args)
    all_goals exact (view _).bind fun _ => failTyping rfl

theorem toValue (filling : Filling) : Plain filling.toValue := by
  cases filling with
  | value v => exact pure v
  | rest items => exact newTuple items
  | options entries => exact newDict entries

theorem bindArguments (f : Function) (args : Arguments) : Plain (Run.bindArguments f args) := by
  refine (ofExcept (f.plain_bindArguments args)).bind fun es => ?_
  exact (mapM fun _ => (toValue _).bind fun _ => pure _).bind fun _ => pure _

/-! ## Targets and classes -/

theorem checkUnpack (targets : Nat) (vs : List Value) : Plain (Run.checkUnpack targets vs) := by
  unfold Run.checkUnpack
  split
  · exact failDomain _
  · split
    · exact failDomain _
    · exact pure _

theorem newRecordType (name : String) (doc? : Option String) (body : Table Value) :
    Plain (Run.newRecordType name doc? body) :=
  (view fun s => s).bind fun s => (ofExcept (RecordType.plain_ofClass s name body doc?)).bind
  fun _ =>
    (make fun _ => rfl).bind fun _ => pure _

/-! ## Natives for trying out a host -/

theorem echo (args : Arguments) : Plain (Host.echo args) :=
  (newTuple _).bind fun _ => (newDict _).bind fun _ => newTuple _

theorem failWith (name : String) (args : Arguments) : Plain (Host.failWith name args) := by
  unfold Host.failWith
  split
  · exact fail rfl
  · exact (view _).bind fun _ => fail rfl

end Run.Plain

/-! ## Specialization -/

namespace Unroll

variable {α β : Type}

theorem toRun_bind (x : Specialize α) (k : α → Specialize β) :
    toRun (x >>= k) = toRun x >>= fun a => toRun (k a) := by
  funext s
  change toRun (EStateM.bind x k) s = EStateM.bind (toRun x) (fun a => toRun (k a)) s
  cases h : x s with
  | ok a t => simp only [toRun, EStateM.bind, h]
  | error e t => simp only [toRun, EStateM.bind, h]

theorem toRun_ofRun (x : Run α) : toRun (Specialize.ofRun x) = x := by
  funext s
  unfold toRun Specialize.ofRun
  generalize x s = r
  cases r <;> rfl

theorem toRun_eq_ok {x : Specialize α} {a : α} {s t : Store} :
    toRun x s = .ok a t ↔ x s = .ok a t := by
  unfold toRun
  cases x s <;> simp

/-- The error comes from specialization itself and not from what it executes. -/
def IsOwn (e : SpecializeError) : Prop := toStop e = .error ⟨none, .native unrollName e.message⟩

theorem isOwn_emit (e : EmitError) : IsOwn (.emit e) := rfl

theorem isOwn_compile (e : CompileError) : IsOwn (.compile e) := rfl

theorem isOwn_unroll (e : UnrollError) : IsOwn (.unroll e) := rfl

theorem isOwn_noMaker : IsOwn .noMaker := rfl

theorem plain_throw {e : SpecializeError} (he : IsOwn e) :
    Run.Plain (toRun (throw e : Specialize α)) := by
  intro fs s hs
  change Run.Landing _ _ (EStateM.Result.error (toStop e) s)
  rw [he]
  exact .error hs (.error rfl)

theorem plain_ofExcept {ε : Type} {wrap : ε → SpecializeError} (hwrap : ∀ e, IsOwn (wrap e))
    (x : Except ε α) : Run.Plain (toRun (Specialize.ofExcept wrap x)) := by
  cases x with
  | ok a => exact .pure a
  | error e => exact plain_throw (hwrap e)

theorem plain_ofFunction (v : Value) (given : Table Value) :
    Run.Plain (toRun (Closure.ofFunction v given)) := by
  have hfixed (v : Value) : Run.Plain (Closure.fixed v) := by
    unfold Closure.fixed
    split
    all_goals first | exact (Run.Plain.items _).bind fun _ => .newTuple _ | exact .pure _
  -- What is no name stops it, and the values for the others are fixed in their order.
  have hfixedAll (es : List (String × Value)) : Run.Plain (toRun (Closure.fixedAll es)) := by
    induction es with
    | nil => exact .pure _
    | cons e es ih =>
      unfold Closure.fixedAll
      dsimp only
      split
      · rw [toRun_bind]
        refine Run.Plain.bind (plain_throw rfl) fun _ => ?_
        split
        · exact ih
        · simp only [toRun_bind, toRun_ofRun]
          exact (hfixed _).bind fun _ => ih.bind fun _ => .pure _
      · split
        · exact ih
        · simp only [toRun_bind, toRun_ofRun]
          exact (hfixed _).bind fun _ => ih.bind fun _ => .pure _
  unfold Closure.ofFunction
  rw [toRun_bind, toRun_ofRun]
  refine (Run.Plain.view _).bind fun type => ?_
  split
  · rw [toRun_bind, toRun_ofRun]
    refine (Run.Plain.view _).bind fun f? => ?_
    split
    · exact plain_throw rfl
    · simp only [toRun_bind, toRun_ofRun]
      refine (hfixedAll _).bind fun fixed => (Run.Plain.newNative _ _).bind fun passing => ?_
      refine (plain_ofExcept isOwn_emit _).bind fun text => ?_
      exact (plain_ofExcept isOwn_compile _).bind fun script => .pure _
  · exact plain_throw rfl

end Unroll

end StagedScript
