import StagedScript.Proofs.Alike.Library

/-!
# Operators and builtins

Operators and builtins compute with what values are, and never look into a function.
-/

namespace StagedScript

variable {h : Hidden}

namespace Value

theorem avoids_of_int_map {x : Except Fault Int64} {v : Value} (hv : Value.int <$> x = .ok v) :
    v.Avoids h := by
  cases x with
  | ok n => cases hv; trivial
  | error e => cases hv

end Value

namespace Arithmetic

theorem ints_avoids {op : BinaryOp} {a b : Int64} {v : Value} (hv : ints op a b = .ok v) :
    v.Avoids h := by
  cases op <;> simp only [ints] at hv
  case div => split at hv <;> cases hv; trivial
  case pow =>
    split at hv
    · cases hv
      trivial
    · exact Value.avoids_of_int_map hv
  case bitAnd | bitOr | bitXor => cases hv; trivial
  all_goals exact Value.avoids_of_int_map hv

theorem numbers_avoids {op : BinaryOp} {l r v : Value} (hv : numbers? op l r = some (.ok v)) :
    v.Avoids h := by
  unfold numbers? at hv
  split at hv
  · exact ints_avoids (Option.some.inj hv)
  · split at hv
    · have hx := Option.some.inj hv
      revert hx
      generalize floats op _ _ = x
      intro hx
      cases x with
      | ok y => cases hx; trivial
      | error e => cases hx
    · cases hv

theorem unary_avoids {op : UnaryOp} {v w : Value} {type : String} (hw : unary op v type = .ok w) :
    w.Avoids h := by
  unfold unary at hw
  split at hw
  · cases hw; trivial
  · cases hw; trivial
  · split at hw
    · cases hw
    · split at hw
      · exact Value.avoids_of_int_map hw
      · cases hw; trivial
      · cases hw; trivial

end Arithmetic

namespace Kinship

open Run

variable {R : Store → Store → Prop} (K : Kinship h R)
include K

/-! ## Operators -/

omit K in
theorem checkRepeat (length count : Nat) : Respects R anything (Run.checkRepeat length count) := by
  unfold Run.checkRepeat
  split
  · exact .pure trivial
  · exact fail _

omit K in
theorem mem_repeated {α : Type} {n : Nat} {xs : List α} {x : α} (hx : x ∈ repeated n xs) :
    x ∈ xs := by
  unfold repeated at hx
  split at hx
  · simp at hx
  · obtain ⟨ys, hys, hx⟩ := List.mem_flatten.1 hx
    rwa [List.eq_of_mem_replicate hys] at hx

theorem repeatValue {v : Value} (hv : v.Avoids h) (n : Int64) :
    Respects R (Value.Avoids h) (Run.repeatValue v n) := by
  unfold Run.repeatValue
  dsimp only
  split
  · exact (checkRepeat _ _).bind fun _ _ => K.newStr _
  · refine (checkRepeat _ _).bind fun _ _ => K.newTuple fun w hw => ?_
    exact Value.avoids_tuple.1 hv w (mem_repeated hw)
  · refine (K.listItems _).bind fun xs hxs => (checkRepeat _ _).bind fun _ _ => ?_
    exact K.newList fun w hw => hxs w (mem_repeated hw)
  · exact K.failNaming v fun t => .typing (.operands BinaryOp.mul.text t "int")

omit K in
theorem repetition_avoids {l r v : Value} {n : Int64} (hl : l.Avoids h) (hr : r.Avoids h)
    (hv : repetition? l r = some (v, n)) : v.Avoids h := by
  unfold repetition? at hv
  split at hv <;> cases hv <;> assumption

theorem format (template : String) (args : Value) :
    Respects R anything (Run.format template args) := by
  have hargs : Respects R anything (Run.view (Run.templateArguments · args)) := by
    refine .view fun s t hst => ⟨?_, trivial⟩
    have hone : Run.templateArgument t = Run.templateArgument s := by
      funext v
      simp only [Run.templateArgument, (K.twin hst).shape]
    cases args <;> simp only [Run.templateArguments, hone]
  exact hargs.bind fun _ _ => (ofExcept fun _ _ => trivial).bind fun _ _ => .pure trivial

theorem unsupported {α : Type} {P : α → Prop} (op : BinaryOp) (l r : Value) :
    Respects R P (Run.unsupported op l r : Run α) :=
  K.failNaming₂ l r fun a b => .typing (.operands op.text a b)

theorem binary (op : BinaryOp) {l r : Value} (hl : l.Avoids h) (hr : r.Avoids h) :
    Respects R (Value.Avoids h) (Run.binary op l r) := by
  unfold Run.binary
  split
  · next x hx => exact ofExcept fun v hv => Arithmetic.numbers_avoids (hx.trans (congrArg some hv))
  · split
    · exact K.newStr _
    · refine K.newTuple fun v hv => ?_
      exact (List.mem_append.1 hv).elim (Value.avoids_tuple.1 hl v) (Value.avoids_tuple.1 hr v)
    · refine (K.listItems _).bind fun xs hxs => (K.listItems _).bind fun ys hys => ?_
      refine K.newList fun v hv => ?_
      rw [Array.toList_append] at hv
      exact (List.mem_append.1 hv).elim (hxs v) (hys v)
    · split
      · next v n hv => exact K.repeatValue (repetition_avoids hl hr hv) n
      · exact K.unsupported _ _ _
    · exact (K.format _ _).bind fun _ _ => K.newStr _
    · exact K.unsupported _ _ _

theorem unary (op : UnaryOp) (v : Value) : Respects R (Value.Avoids h) (Run.unary op v) := by
  unfold Run.unary
  split
  · exact (K.isTruthy v).bind fun _ _ => .pure trivial
  · exact (K.typeName v).bind fun _ _ => ofExcept fun _ hw => Arithmetic.unary_avoids hw

omit K in
theorem remainder (a b : Int64) : Respects R anything (Run.remainder a b) := by
  unfold Run.remainder
  split
  · exact .throw _
  · exact .pure trivial

omit K in
theorem inRange (r : Range) (n : Int64) : Respects R anything (Run.inRange r n) := by
  unfold Run.inRange
  split
  · exact (remainder _ _).bind fun _ _ => .pure trivial
  · exact .pure trivial

theorem anyEqual (v : Value) (items : List Value) :
    Respects R anything (Run.anyEqual v items) := by
  induction items with
  | nil => exact .pure trivial
  | cons item items ih =>
    refine (K.equal item v).bind fun answer _ => ?_
    cases answer with
    | true => exact .pure trivial
    | false => exact ih

theorem contains {container : Value} (hc : container.Avoids h) (item : Value) :
    Respects R anything (Run.contains container item) := by
  unfold Run.contains
  split
  · exact .pure trivial
  · exact K.failNaming item fun t => .typing (.needleNotText t)
  · exact (K.dictEntries _).bind fun _ _ => .pure trivial
  · exact .pure trivial
  · cases item.int? with
    | none => exact .pure trivial
    | some n => exact inRange _ n
  · refine (K.sequenceItems? hc).bind fun o _ => ?_
    split
    · exact K.anyEqual item _
    · exact K.failNaming container fun t => .typing (.notContainer t)

theorem compare (op : CompareOp) (l : Value) {r : Value} (hr : r.Avoids h) :
    Respects R anything (Run.compare op l r) := by
  unfold Run.compare
  split
  · exact K.equal l r
  · exact (K.equal l r).bind fun _ _ => .pure trivial
  · exact .pure trivial
  · exact .pure trivial
  · exact K.contains hr l
  · exact (K.contains hr l).bind fun _ _ => .pure trivial
  · refine (K.order? l r).bind fun o _ => ?_
    split
    · exact .pure trivial
    · exact K.failNaming₂ l r fun a b => .typing (.unordered op.text a b)

/-! ## Builtins -/

omit K in
theorem failCount {α : Type} {P : α → Prop} (b : Builtin) (expected got : Nat) :
    Respects R P (Run.failCount b expected got : Run α) := fail _

omit K in
theorem optional (b : Builtin) {args : List Value} (hargs : ∀ v ∈ args, v.Avoids h) :
    Respects R (fun o => ∀ v, o = some v → v.Avoids h) (Run.optional b args) := by
  unfold Run.optional
  split
  · exact .pure (by simp)
  · exact .pure (by simpa using hargs)
  · exact failCount _ _ _

omit K in
theorem single (b : Builtin) {args : List Value} (hargs : ∀ v ∈ args, v.Avoids h) :
    Respects R (Value.Avoids h) (Run.single b args) := by
  unfold Run.single
  split
  · exact .pure (by simpa using hargs)
  · exact failCount _ _ _

theorem optionalItems (b : Builtin) {args : List Value} (hargs : ∀ v ∈ args, v.Avoids h) :
    Respects R (fun vs => ∀ v ∈ vs, v.Avoids h) (Run.optionalItems b args) := by
  refine (optional b hargs).bind fun o ho => ?_
  split
  · exact K.items (ho _ rfl)
  · exact .pure (by simp)

theorem pair {v : Value} (hv : v.Avoids h) :
    Respects R (fun e => e.2.Avoids h) (Run.pair v) := by
  refine (K.sequenceItems? hv).bind fun o ho => ?_
  split
  · exact .pure (ho _ rfl _ (by simp))
  · exact failTyping _

theorem dictSource (b : Builtin) {args : List Value} (hargs : ∀ v ∈ args, v.Avoids h) :
    Respects R (Table.Avoids h) (Run.dictSource b args) := by
  refine (optional b hargs).bind fun o ho => ?_
  split
  · exact .pure Table.avoids_empty
  · exact K.dictEntries _
  · refine (K.items (ho _ rfl)).bind fun vs hvs => ?_
    refine Respects.bind (.mapM fun v hv => K.pair (hvs v hv)) fun es hes => ?_
    exact .pure (Table.Avoids.ofList hes)

theorem rangeArgument (v : Value) : Respects R anything (Run.rangeArgument v) := by
  unfold Run.rangeArgument
  split
  · exact .pure trivial
  · exact K.failNaming v fun t => .typing (.notInteger t)

theorem rangeOf (args : List Value) : Respects R anything (Run.rangeOf args) := by
  have hstep (r : Range) :
      Respects R anything (if r.step = 0 then Run.failDomain .zeroStep else pure r :
        Run Range) := by
    split
    · exact failDomain _
    · exact .pure trivial
  have hargs : Respects R (fun ns => ∀ n ∈ ns, anything n) (args.mapM Run.rangeArgument) :=
    .mapM fun v _ => K.rangeArgument v
  refine hargs.bind fun ns _ => ?_
  dsimp only
  split
  · exact hstep ⟨0, _, 1⟩
  · exact hstep ⟨_, _, 1⟩
  · exact hstep ⟨_, _, _⟩
  · exact (failCount (P := anything) _ _ _).bind fun r _ => hstep r

theorem textOption (named : Table Value) (name default : String) :
    Respects R anything (Run.textOption named name default) := by
  unfold Run.textOption
  split
  · exact .pure trivial
  · exact .pure trivial
  · exact .pure trivial
  · exact K.failNaming _ fun t => .typing (.optionNotText name t)

theorem printed (args : Arguments) : Respects R anything (Run.printed args) := by
  refine (K.textOption _ _ _).bind fun separator _ => (K.textOption _ _ _).bind fun stop _ => ?_
  refine (noKeywords _ _).bind fun _ _ => ?_
  exact Respects.bind (.mapM fun v _ => K.text v) fun _ _ => .pure trivial

omit K in
theorem attributeName (b : Builtin) (v : Value) : Respects R anything (Run.attributeName b v) := by
  unfold Run.attributeName
  split
  · exact .pure trivial
  · exact failTyping _

omit K in
theorem rows_avoid {columns : List (List Value)} (hcs : ∀ c ∈ columns, ∀ v ∈ c, v.Avoids h) :
    ∀ row ∈ rows columns, ∀ v ∈ row, v.Avoids h := by
  induction columns using rows.induct with
  | case1 => simp [rows]
  | case2 c =>
    intro row hrow v hv
    obtain ⟨w, hw, rfl⟩ := List.mem_map.1 hrow
    rw [List.mem_singleton.1 hv]
    exact hcs c (by simp) w hw
  | case3 c cs hcs' ih =>
    intro row hrow v hv
    rw [rows] at hrow
    · rw [← List.map_uncurry_zip_eq_zipWith] at hrow
      obtain ⟨⟨w, row'⟩, hzip, rfl⟩ := List.mem_map.1 hrow
      obtain ⟨hw, hrow'⟩ := List.of_mem_zip hzip
      rcases List.mem_cons.1 hv with rfl | hv
      · exact hcs c (by simp) _ hw
      · exact ih (fun d hd => hcs d (List.mem_cons_of_mem _ hd)) row' hrow' v hv
    · exact hcs'

omit K in
theorem withStart (b : Builtin) {args : Arguments} (hargs : args.Avoids h) :
    Respects R (fun p => p.1.Avoids h ∧ p.2.Avoids h) (Run.withStart b args) := by
  refine (noKeywords _ _).bind fun _ _ => ?_
  have hpos := hargs.positional
  split
  · next v hv _ => exact .pure ⟨hpos v (by simp [hv]), trivial⟩
  · next v start hv _ => exact .pure ⟨hpos v (by simp [hv]), hpos start (by simp [hv])⟩
  · next v start hv hstart => exact .pure ⟨hpos v (by simp [hv]), hargs.named.get? hstart⟩
  · exact failCount _ _ _

theorem numbered (start : Int64) {vs : List Value} (hvs : ∀ v ∈ vs, v.Avoids h) :
    Respects R (fun ws => ∀ w ∈ ws, w.Avoids h) (Run.numbered start vs) := by
  induction vs generalizing start with
  | nil => exact .pure (by simp)
  | cons v vs ih =>
    refine (K.newTuple (by simpa using hvs v (by simp))).bind fun w hw => ?_
    refine (ih (start + 1) fun u hu => hvs u (List.mem_cons_of_mem _ hu)).bind fun ws hws => ?_
    exact .pure (by simpa using ⟨hw, hws⟩)

theorem extreme (op : CompareOp) (want : Ordering) {best : Value} (hbest : best.Avoids h)
    {vs : List Value} (hvs : ∀ v ∈ vs, v.Avoids h) :
    Respects R (Value.Avoids h) (Run.extreme op want best vs) := by
  induction vs generalizing best with
  | nil => exact .pure hbest
  | cons v vs ih =>
    refine (K.order? v best).bind fun o _ => ?_
    split
    · refine ih ?_ fun u hu => hvs u (List.mem_cons_of_mem _ hu)
      split
      · exact hvs v (by simp)
      · exact hbest
    · exact K.failNaming₂ v best fun a b => .typing (.unordered op.text a b)

theorem extremeOf (b : Builtin) (op : CompareOp) (want : Ordering) {args : List Value}
    (hargs : ∀ v ∈ args, v.Avoids h) :
    Respects R (Value.Avoids h) (Run.extremeOf b op want args) := by
  have hfirst {x : Run Value} {vs : List Value} (hvs : ∀ v ∈ vs, v.Avoids h)
      (hnil : vs = [] → x = Run.failDomain (.emptySequence b.name))
      (hcons : ∀ v ws, vs = v :: ws → x = Run.extreme op want v ws) :
      Respects R (Value.Avoids h) x := by
    cases vs with
    | nil =>
      rw [hnil rfl]
      exact failDomain _
    | cons v vs =>
      rw [hcons v vs rfl]
      exact K.extreme op want (hvs v (by simp)) fun w hw => hvs w (by simp [hw])
  unfold Run.extremeOf
  split
  · refine (failCount (P := fun vs => ∀ v ∈ vs, Value.Avoids h v) _ _ _).bind fun vs hvs => ?_
    exact hfirst hvs (by rintro rfl; rfl) (by rintro v ws rfl; rfl)
  · refine (K.items (hargs _ (by simp))).bind fun vs hvs => ?_
    exact hfirst hvs (by rintro rfl; rfl) (by rintro v ws rfl; rfl)
  · exact hfirst hargs (by rintro rfl; rfl) (by rintro v ws rfl; rfl)

theorem toInt (v : Value) : Respects R anything (Run.toInt v) := by
  unfold Run.toInt
  split
  · dsimp only
    split
    · exact .pure trivial
    · exact failDomain _
  · split
    · exact .pure trivial
    · exact (K.repr _).bind fun _ _ => failDomain _
  · split
    · exact .pure trivial
    · exact K.failNaming _ fun t => .typing (.notNumber t)

theorem absolute (v : Value) : Respects R (Value.Avoids h) (Run.absolute v) := by
  unfold Run.absolute
  split
  · exact .pure trivial
  · split
    · exact (ofExcept (P := anything) fun _ _ => trivial).bind fun _ _ => .pure trivial
    · exact K.failNaming _ fun t => .typing (.absOperand t)

theorem accessor (v : Value) : Respects R (Value.Avoids h) (Run.accessor v) := by
  unfold Run.accessor
  split
  · split
    · exact .pure trivial
    · exact (K.repr v).bind fun _ _ => failDomain _
  · exact (K.repr v).bind fun _ _ => failDomain _

theorem write (sink : Sink) (text : String) :
    Respects R anything (modify (·.write sink text) : Run PUnit) := by
  refine K.changing ?_ fun _ hs => hs.write sink text
  cases sink
  · exact ⟨fun _ _ => rfl, fun _ => rfl⟩
  · exact ⟨fun _ _ => rfl, fun _ => rfl⟩

theorem applyBuiltin (sink : Sink) (b : Builtin) {args : Arguments} (hargs : args.Avoids h) :
    Respects R (Value.Avoids h) (Run.applyBuiltin sink b args) := by
  have hpos := hargs.positional
  cases b <;> unfold Run.applyBuiltin
  case len =>
    refine (single _ hpos).bind fun v _ => (K.size? v).bind fun o _ => ?_
    split
    · exact .pure trivial
    · exact K.failNaming v fun t => .typing (.noLength t)
  case tuple => exact (K.optionalItems _ hpos).bind fun _ hvs => K.newTuple hvs
  case list => exact (K.optionalItems _ hpos).bind fun _ hvs => K.newList hvs
  case dict | orderedDict =>
    exact (K.dictSource _ hpos).bind fun t ht => K.newDict (ht.insertAll hargs.named)
  case range => exact (K.rangeOf _).bind fun _ _ => .pure trivial
  case str =>
    refine (optional _ hpos).bind fun o _ => ?_
    split
    · exact (K.text _).bind fun _ _ => K.newStr _
    · exact K.newStr _
  case repr =>
    exact (single _ hpos).bind fun v _ => (K.repr v).bind fun _ _ => K.newStr _
  case print =>
    exact (K.printed args).bind fun _ _ => (K.write sink _).bind fun _ _ => .pure trivial
  case getattr =>
    dsimp only
    split
    · next v name hargs' =>
      refine (attributeName _ name).bind fun x _ => K.getAttr (hpos v (by simp [hargs'])) x
    · next v name other hargs' =>
      refine (attributeName _ name).bind fun x _ => ?_
      exact K.getAttrOr (hpos v (by simp [hargs'])) (hpos other (by simp [hargs'])) x
    · exact failCount _ _ _
  case setattr =>
    dsimp only
    split
    · next target name v hargs' =>
      refine (attributeName _ name).bind fun x _ => ?_
      exact (K.setAttr (hpos v (by simp [hargs'])) x).bind fun _ _ => .pure trivial
    · exact failCount _ _ _
  case zip =>
    refine Respects.bind (.mapM fun v hv => K.items (hpos v hv)) fun columns hcs => ?_
    refine Respects.bind (.mapM fun row hrow => K.newTuple (rows_avoid hcs row hrow))
      fun vs hvs => K.newList hvs
  case enumerate =>
    refine (withStart _ hargs).bind fun p hp => ?_
    dsimp only
    split
    · exact (K.items hp.1).bind fun vs hvs => (K.numbered _ hvs).bind fun ws hws => K.newList hws
    · exact failTyping _
  case min | max => exact K.extremeOf _ _ _ hpos
  case sum =>
    refine (withStart _ hargs).bind fun p hp => (K.items hp.1).bind fun vs hvs => ?_
    exact .foldlM (fun a ha v hv => K.binary .add ha (hvs v hv)) hp.2
  case abs => exact (single _ hpos).bind fun v _ => K.absolute v
  case int =>
    refine (optional _ hpos).bind fun o _ => ?_
    split
    · exact (K.toInt _).bind fun _ _ => .pure trivial
    · exact .pure trivial
  case slots => exact failTyping _
  case slot => exact (single _ hpos).bind fun v _ => K.accessor v

theorem callBuiltin (sink : Sink) (b : Builtin) {args : Arguments} (hargs : args.Avoids h) :
    Respects R (Value.Avoids h) (Run.callBuiltin sink b args) := by
  unfold Run.callBuiltin
  split
  · exact (noKeywords _ _).bind fun _ _ => K.applyBuiltin sink b hargs
  · exact K.applyBuiltin sink b hargs

end Kinship

end StagedScript
