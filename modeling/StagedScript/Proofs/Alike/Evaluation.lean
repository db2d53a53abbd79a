import StagedScript.Proofs.Alike.Builtins
import StagedScript.Run.Exec

/-!
# Evaluation

Expressions are evaluated by what respects every relation of a `Kinship`, as long as calls do.  So
evaluation does too, in frames that lead to nothing hidden, and so does assignment, as far as
binding the names of the target does.
-/

namespace StagedScript

variable {h : Hidden}

/-- The frame leads to nothing that is hidden. -/
structure Frame.Avoids (h : Hidden) (f : Frame) : Prop where
  locals : ¬ h.namespaces f.locals
  globals : ¬ h.namespaces f.globals
  captured : ∀ t, f.captured? = some t → t.Avoids h

namespace Frame.Avoids

variable {f : Frame} (hf : f.Avoids h) {s : Store} (hs : s.Avoids h)
include hf hs

theorem find? {name : String} {v : Value} (hv : f.find? s name = some v) : v.Avoids h := by
  unfold Frame.find? at hv
  simp only [Option.orElse_eq_orElse, Option.orElse_eq_or, Option.or_eq_some_iff] at hv
  rcases hv with hv | ⟨-, hv | ⟨-, hv | ⟨-, hv⟩⟩⟩
  · exact (hs.bindings hf.locals).get? hv
  · obtain ⟨t, ht, hv⟩ := Option.bind_eq_some_iff.1 hv
    exact (hf.captured t ht).get? hv
  · exact (hs.bindings hf.globals).get? hv
  · obtain ⟨b, -, rfl⟩ := Option.map_eq_some_iff.1 hv
    exact trivial

theorem capture (names : List String) : (f.capture s names).Avoids h := by
  unfold Frame.capture
  split
  · exact Table.avoids_empty
  · next t ht =>
    refine Table.Avoids.ofList fun e he => ?_
    obtain ⟨x, -, hx⟩ := List.mem_filterMap.1 he
    obtain ⟨v, hv, rfl⟩ := Option.map_eq_some_iff.1 hx
    simp only [Option.orElse_eq_orElse, Option.orElse_eq_or, Option.or_eq_some_iff] at hv
    rcases hv with hv | ⟨-, hv⟩
    · exact (hs.bindings hf.locals).get? hv
    · exact (hf.captured t ht).get? hv

end Frame.Avoids

/-- Calls respect the relation, if they lead to nothing hidden. -/
def Caller.Respects (h : Hidden) (R : Store → Store → Prop) (call : Caller) : Prop :=
  ∀ v args, v.Avoids h → args.Avoids h → StagedScript.Respects R (Value.Avoids h) (call v args)

namespace Arguments

theorem addNamed_avoids {args args' : Arguments} {name : String} {v : Value}
    (hargs : args.Avoids h) (hv : v.Avoids h) (hadd : args.addNamed name v = .ok args') :
    args'.Avoids h := by
  unfold addNamed at hadd
  split at hadd
  · cases hadd
  · cases hadd
    exact ⟨hargs.positional, hargs.named.insert hv name⟩

theorem addNamedAll_avoids {args args' : Arguments} (hargs : args.Avoids h)
    {es : List (String × Value)} (hes : ∀ e ∈ es, e.2.Avoids h)
    (hadd : es.foldlM (fun args (k, v) => args.addNamed k v) args = .ok args') :
    args'.Avoids h := by
  induction es generalizing args with
  | nil =>
    cases hadd
    exact hargs
  | cons e es ih =>
    rw [List.foldlM_cons] at hadd
    obtain ⟨args₁, hone, hrest⟩ := Except.bind_eq_ok.1 hadd
    have hargs₁ := addNamed_avoids hargs (hes e (by simp)) hone
    exact ih hargs₁ (fun e' he' => hes e' (List.mem_cons_of_mem _ he')) hrest

theorem addPlaces_avoids {args : Arguments} {vs : List Value} (hargs : args.Avoids h)
    (hvs : ∀ v ∈ vs, v.Avoids h) : (args.addPlaces vs).Avoids h :=
  ⟨fun v hv => (List.mem_append.1 hv).elim (hargs.positional v) (hvs v), hargs.named⟩

end Arguments

/-- What a parameter is bound to holds nothing that is hidden. -/
def Filling.Avoids (h : Hidden) : Filling → Prop
  | .value v => v.Avoids h
  | .rest items => ∀ v ∈ items, v.Avoids h
  | .options entries => entries.Avoids h

namespace Function

/-- Parameters are filled in their order, with arguments and defaults alone. -/
theorem fillings_spec {f : Function} {args : Arguments} (hargs : args.Avoids h)
    {ps : List (Param Value)} (hps : ∀ p ∈ ps, Param.Avoids h p) {places : List Value}
    (hplaces : ∀ v ∈ places, v.Avoids h) {es : List (String × Filling)}
    (hes : f.fillings args ps places = .ok es) :
    es.map (·.1) = Param.names ps ∧ ∀ e ∈ es, e.2.Avoids h := by
  induction ps generalizing places es with
  | nil =>
    rw [fillings] at hes
    cases hes
    simp [Param.names]
  | cons p ps ih =>
    have hrest := fun q hq => hps q (List.mem_cons_of_mem p hq)
    -- Whatever fills the first parameter, the others are filled with what is left of the places.
    have step (filling : Filling) {places' : List Value} (hfilling : filling.Avoids h)
        (hplaces' : ∀ v ∈ places', v.Avoids h)
        (heq : (do return (p.name, filling) :: (← f.fillings args ps places')) = Except.ok es) :
        es.map (·.1) = Param.names (p :: ps) ∧ ∀ e ∈ es, e.2.Avoids h := by
      obtain ⟨es', hes', heq⟩ := Except.bind_eq_ok.1 heq
      cases heq
      obtain ⟨hnames, havoid⟩ := ih hrest hplaces' hes'
      refine ⟨?_, List.forall_mem_cons.2 ⟨hfilling, havoid⟩⟩
      rw [List.map_cons, hnames]
      rfl
    unfold fillings at hes
    split at hes
    · exact step (.rest _) (fun v hv => hargs.positional v (List.mem_of_mem_drop hv)) hplaces hes
    · exact step (.options _) (hargs.named.filter _) hplaces hes
    · next v places _ =>
      exact step (.value v) (hplaces v (by simp)) (fun v hv => hplaces v (by simp [hv])) hes
    · next default? hkind =>
      split at hes
      · next v hv =>
        refine step (.value v) ?_ (by simp) hes
        rcases Option.or_eq_some_iff.1 hv with hv | ⟨-, hv⟩
        · exact hargs.named.get? hv
        · exact hps p (by simp) v (by rw [Param.default?, hkind, hv])
      · cases hes

end Function

/-- The other attributes of a class are the entries of its body that are neither reserved nor
accessors. -/
theorem RecordType.ofClass_attrs {s : Store} {name : String} {body : Table Value}
    {doc? : Option String} {t : RecordType} (ht : RecordType.ofClass s name body doc? = .ok t) :
    t.attrs = (body.filter fun key _ => !RecordType.reserved.contains key).filterMap
      RecordType.plain? := by
  obtain ⟨fields, -, ht⟩ := Except.bind_eq_ok.1 ht
  obtain ⟨-, -, ht⟩ := Except.bind_eq_ok.1 ht
  obtain ⟨-, -, ht⟩ := Except.bind_eq_ok.1 ht
  obtain ⟨format, -, ht⟩ := Except.bind_eq_ok.1 ht
  obtain ⟨-, -, ht⟩ := Except.bind_eq_ok.1 ht
  cases ht
  rfl

namespace Kinship

open Run

-- Recursive calls do not name the variables of the section, which counts as not using them.
set_option linter.unusedSectionVars false

variable {R : Store → Store → Prop} (K : Kinship h R)
include K

theorem addMapping {args : Arguments} (hargs : args.Avoids h) (v : Value) :
    Respects R (Arguments.Avoids h) (Run.addMapping args v) := by
  unfold Run.addMapping
  split
  · exact (K.dictEntries _).bind fun t ht => ofExcept fun _ hadd =>
      Arguments.addNamedAll_avoids hargs ht hadd
  · exact K.failNaming v fun t => .typing (.notMapping t)

theorem addArgument {args : Arguments} (hargs : args.Avoids h) (role : ArgRole) {v : Value}
    (hv : v.Avoids h) : Respects R (Arguments.Avoids h) (Run.addArgument args role v) := by
  cases role with
  | positional => exact .pure (Arguments.addPlaces_avoids hargs (by simpa using hv))
  | star =>
    exact (K.items hv).bind fun vs hvs => .pure (Arguments.addPlaces_avoids hargs hvs)
  | keyword name => exact ofExcept fun _ hadd => Arguments.addNamed_avoids hargs hv hadd
  | starStar => exact K.addMapping hargs v

/-! ## Expressions -/

section Frames

variable {call : Caller} (hcall : call.Respects h R) {f : Frame} (hf : f.Avoids h)
include hf

theorem lookup (name : String) : Respects R (Value.Avoids h) (Run.lookup f name) := by
  have hfind : Respects R (fun o => ∀ v, o = some v → v.Avoids h)
      (Run.view (f.find? · name)) :=
    K.view (fun _ _ => rfl) fun _ hs _ hv => hf.find? hs hv
  refine hfind.bind fun o ho => ?_
  split
  · exact .pure (ho _ rfl)
  · exact fail _

include hcall

mutual

theorem eval : ∀ e : Expr, Respects R (Value.Avoids h) (Run.eval call f e)
  | .int _ _ | .float _ _ | .bool _ _ | .none_ _ => .pure trivial
  | .str _ text => K.newStr text
  | .name _ x => K.lookup hf x
  | .tuple _ es => (evalAll es).bind fun _ hvs => K.newTuple hvs
  | .list _ es => (evalAll es).bind fun _ hvs => K.newList hvs
  | .dict _ es => (evalEntries es).bind fun _ hes => K.newDict (Table.Avoids.ofList hes)
  | .binary _ op l r =>
    (eval l).bind fun _ ha => (eval r).bind fun _ hb => K.binary op ha hb
  | .unary _ op e => (eval e).bind fun v _ => K.unary op v
  | .logical _ op l r =>
    (eval l).bind fun a ha => (K.isTruthy a).bind fun b _ => by
      split
      · exact .pure ha
      · exact .pure ha
      · exact eval r
  | .compare _ op l r =>
    (eval l).bind fun a _ => (eval r).bind fun _ hb => (K.compare op a hb).bind fun _ _ =>
      .pure trivial
  | .call _ g args =>
    (eval g).bind fun _ hg =>
      (evalArgs args (.ofList []) (.ofList (by simp))).bind fun _ hargs => hcall _ _ hg hargs
  | .attr _ o x => (eval o).bind fun _ ho => K.getAttr ho x
  | .subscript _ o i => (eval o).bind fun _ ho => (eval i).bind fun i _ => K.getItem ho i

theorem evalAll : ∀ es : List Expr,
    Respects R (fun vs => ∀ v ∈ vs, v.Avoids h) (Run.evalAll call f es)
  | [] => .pure (by simp)
  | e :: es => (eval e).bind fun _ hv => (evalAll es).bind fun _ hvs =>
    .pure (List.forall_mem_cons.2 ⟨hv, hvs⟩)

theorem evalEntries : ∀ es : List (Expr × Expr),
    Respects R (fun es => ∀ e ∈ es, e.2.Avoids h) (Run.evalEntries call f es)
  | [] => .pure (by simp)
  | (k, e) :: es => (eval k).bind fun v _ => (K.dictKey v).bind fun _ _ =>
    (eval e).bind fun _ hv => (evalEntries es).bind fun _ hes =>
      .pure (List.forall_mem_cons.2 ⟨hv, hes⟩)

theorem evalArgs : ∀ (args : List (Arg Expr)) (before : Arguments), before.Avoids h →
    Respects R (Arguments.Avoids h) (Run.evalArgs call f before args)
  | [], _, hbefore => .pure hbefore
  | ⟨role, e⟩ :: args, _, hbefore => (eval e).bind fun _ hv =>
    (K.addArgument hbefore role hv).bind fun _ hargs => evalArgs args _ hargs

end

/-! ## Assignments, parameters and decorators -/

omit K hcall hf in
theorem checkUnpack (targets : Nat) (vs : List Value) :
    Respects R anything (Run.checkUnpack targets vs) := by
  unfold Run.checkUnpack
  split
  · exact failDomain _
  · split
    · exact failDomain _
    · exact .pure trivial

mutual

/-- Assignment respects the relation where binding the names of the target does. -/
theorem assign : ∀ (target : Expr),
    (∀ x ∈ target.stores, ∀ v : Value, v.Avoids h → Respects R anything (Run.bind f x v)) →
    ∀ v : Value, v.Avoids h → Respects R anything (Run.assign call f target v)
  | .name _ x, hbind, v, hv => hbind x (by simp [Expr.stores]) v hv
  | .tuple _ ts, hbind, v, hv =>
    (K.items hv).bind fun vs hvs => (checkUnpack ts.length vs).bind fun _ _ =>
      assignAll ts hbind vs hvs
  | .list _ ts, hbind, v, hv =>
    (K.items hv).bind fun vs hvs => (checkUnpack ts.length vs).bind fun _ _ =>
      assignAll ts hbind vs hvs
  | .attr _ o x, _, v, hv => (K.eval hcall hf o).bind fun _ _ => K.setAttr hv x
  | .subscript _ o i, _, v, hv =>
    (K.eval hcall hf o).bind fun _ _ => (K.eval hcall hf i).bind fun _ _ => K.setItem _ _ hv
  | .int _ _, _, _, _ | .float _ _, _, _, _ | .str _ _, _, _, _ | .bool _ _, _, _, _
  | .none_ _, _, _, _ | .dict _ _, _, _, _ | .binary _ _ _ _, _, _, _ | .unary _ _ _, _, _, _
  | .logical _ _ _ _, _, _, _ | .compare _ _ _ _, _, _, _ | .call _ _ _, _, _, _ => failTyping _

theorem assignAll : ∀ (ts : List Expr),
    (∀ x ∈ Expr.storesAll ts, ∀ v : Value, v.Avoids h → Respects R anything (Run.bind f x v)) →
    ∀ vs : List Value, (∀ v ∈ vs, v.Avoids h) → Respects R anything (Run.assignAll call f ts vs)
  | [], _, _, _ => .pure trivial
  | _ :: _, _, [], _ => .pure trivial
  | t :: ts, hbind, v :: vs, hvs =>
    (assign t (fun x hx => hbind x (by simp [Expr.storesAll, hx])) v (hvs v (by simp))).bind
      fun _ _ => assignAll ts (fun x hx => hbind x (by simp [Expr.storesAll, hx])) vs
        fun w hw => hvs w (List.mem_cons_of_mem _ hw)

end

theorem evalParams (ps : List (Param Expr)) :
    Respects R (fun qs => Param.names qs = Param.names ps ∧ ∀ q ∈ qs, Param.Avoids h q)
      (Run.evalParams call f ps) := by
  induction ps with
  | nil => exact .pure (by simp [Param.names])
  | cons p ps ih =>
    have hrest {kind : ParamKind Value} (hkind : Param.Avoids h ⟨p.name, kind⟩) :
        Respects R (fun qs => Param.names qs = Param.names (p :: ps) ∧ ∀ q ∈ qs, Param.Avoids h q)
          (do return ⟨p.name, kind⟩ :: (← Run.evalParams call f ps) :
            Run (List (Param Value))) := by
      refine ih.bind fun qs hqs => .pure ⟨?_, List.forall_mem_cons.2 ⟨hkind, hqs.2⟩⟩
      exact congrArg (p.name :: ·) hqs.1
    unfold Run.evalParams
    split
    · exact hrest (by simp [Param.Avoids, Param.default?])
    · refine (K.eval hcall hf _).bind fun v hv => hrest fun w hw => ?_
      cases hw
      exact hv
    · exact hrest (by simp [Param.Avoids, Param.default?])
    · exact hrest (by simp [Param.Avoids, Param.default?])

theorem checkBase (name : String) (base : Option Expr) :
    Respects R anything (Run.checkBase call f name base) := by
  unfold Run.checkBase
  split
  · exact failTyping _
  · refine (K.eval hcall hf _).bind fun v _ => ?_
    split
    · exact .pure trivial
    · exact failTyping _

omit hf in
theorem decorate {decorators : List Value} (hds : ∀ d ∈ decorators, d.Avoids h) {v : Value}
    (hv : v.Avoids h) : Respects R (Value.Avoids h) (Run.decorate call decorators v) := by
  refine .foldlM (fun w hw d hd => ?_) hv
  exact hcall d _ (hds d (List.mem_reverse.1 hd)) (.ofList (by simpa using hw))

end Frames

/-! ## Arguments of functions -/

theorem toValue {filling : Filling} (hfilling : filling.Avoids h) :
    Respects R (Value.Avoids h) filling.toValue := by
  cases filling with
  | value v => exact .pure hfilling
  | rest items => exact K.newTuple hfilling
  | options entries => exact K.newDict hfilling

/-- The body of a function starts with its parameters as the only names. -/
theorem bindArguments {g : Function} (hg : g.Avoids h) {args : Arguments} (hargs : args.Avoids h) :
    Respects R (fun t => t.Avoids h ∧ ∀ k ∈ t.keys, k ∈ Param.names g.params)
      (Run.bindArguments g args) := by
  have hfillings (es : List (String × Filling)) (hes : g.bindArguments args = .ok es) :
      es.map (·.1) = Param.names g.params ∧ ∀ e ∈ es, e.2.Avoids h := by
    obtain ⟨-, -, hes⟩ := Except.bind_eq_ok.1 hes
    obtain ⟨-, -, hes⟩ := Except.bind_eq_ok.1 hes
    exact Function.fillings_spec hargs hg.params hargs.positional hes
  refine (ofExcept hfillings).bind fun es ⟨hnames, hes⟩ => ?_
  have hbound : Respects R (fun bs => ∀ b ∈ bs, b.2.Avoids h ∧ b.1 ∈ Param.names g.params)
      (es.mapM fun e => do return (e.1, ← e.2.toValue)) := by
    refine .mapM fun e he => (K.toValue (hes e he)).bind fun v hv => .pure ⟨hv, ?_⟩
    rw [← hnames]
    exact List.mem_map_of_mem he
  refine hbound.bind fun bs hbs => .pure ⟨Table.Avoids.ofList fun b hb => (hbs b hb).1, ?_⟩
  intro k hk
  obtain ⟨b, hb, rfl⟩ := List.mem_map.1 hk
  exact (hbs b (Table.mem_entries_ofList hb)).2

/-! ## Classes -/

/-- What a class body describes depends on the store for the texts of errors alone. -/
theorem ofClass (name : String) (doc? : Option String) {body : Table Value}
    (hbody : body.Avoids h) :
    Respects R (fun x => ∀ t, x = .ok t → t.attrs.Avoids h)
      (Run.view fun s => RecordType.ofClass s name body doc?) := by
  refine .view fun s t hst => ⟨?_, fun u hu => ?_⟩
  · have hrepr : t.repr = s.repr := by
      funext v
      rw [Store.repr, Store.repr, (K.twin hst).shape]
    have htype : t.typeName = s.typeName := by
      funext v
      rw [(K.twin hst).eq]
      cases v <;> rfl
    simp only [RecordType.ofClass, RecordType.checkArity, RecordType.checkMapping,
      RecordType.readFormat, hrepr, htype]
  · rw [RecordType.ofClass_attrs hu]
    intro e he
    obtain ⟨e', he', hplain⟩ := List.mem_filterMap.1 he
    obtain ⟨w, hw, rfl⟩ := Option.map_eq_some_iff.1 hplain
    have hav := hbody e' (List.mem_filter.1 he').1
    unfold RecordType.plain? at hw
    split at hw
    · cases hw
    · cases hw
      exact hav

theorem newRecordType (name : String) (doc? : Option String) {body : Table Value}
    (hbody : body.Avoids h) : Respects R (Value.Avoids h) (Run.newRecordType name doc? body) := by
  have hmake {t : RecordType} (ht : t.attrs.Avoids h) :
      Respects R anything (Run.make (·.newRecordType t)) :=
    K.make ⟨fun _ _ => rfl, fun _ => rfl⟩ (fun _ _ => rfl)
      fun _ hs => ⟨trivial, hs.newRecordType ht⟩
  have heq : Run.newRecordType name doc? body =
      (Run.view fun s => RecordType.ofClass s name body doc?) >>= fun x => do
        return .recordType (← Run.make (·.newRecordType (← Run.ofExcept x))) := rfl
  rw [heq]
  refine (K.ofClass name doc? hbody).bind fun x hx => ?_
  exact (ofExcept hx).bind fun t ht => (hmake ht).bind fun _ _ => .pure trivial

end Kinship

end StagedScript
