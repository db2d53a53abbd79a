import StagedScript.Proofs.Data.Basic
import StagedScript.Proofs.Basic
import StagedScript.Proofs.Specializing.Made
import StagedScript.Proofs.Specializing.WellFormed

/-!
# Binding arguments loses and doubles nothing

What a parameter takes depends on the parameters in front of it only through the arguments by place
that are left.  Said for each parameter by itself it is: the argument with its place, else the one
with its name, else its default.
-/

namespace StagedScript

namespace Function

variable (f : Function) (args : Arguments)

/-! ## What a parameter takes -/

/-- What a parameter takes if the arguments `given` are those that plain parameters get by their
places. -/
def takes? (given : List (String × Value)) (p : Param Value) : Option Filling :=
  match p.kind with
  | .plain default? =>
    ((given.lookup p.name).or ((args.named.get? p.name).or default?)).map .value
  | .star => some (.rest (args.positional.drop f.plainNames.length))
  | .starStar => some (.options (f.options args.named))

variable {f args}

/-- An argument for another parameter does not matter. -/
theorem takes?_cons {given : List (String × Value)} {x : String} {v : Value} {p : Param Value}
    (hp : p.name ≠ x) : f.takes? args ((x, v) :: given) p = f.takes? args given p := by
  unfold takes?
  rw [List.lookup_cons, beq_eq_false_iff_ne.2 hp]

/-- Parameters are bound if each of them takes something. -/
theorem fillings_eq_ok {ps : List (Param Value)} {places : List Value}
    {es : List (String × Filling)} (hps : (Param.names ps).Nodup) :
    f.fillings args ps places = .ok es ↔
      List.Forall₂ (fun p e => p.name = e.1 ∧
        f.takes? args ((Param.names (ps.filter Param.isPlain)).zip places) p = some e.2) ps es := by
  induction ps generalizing places es with
  | nil =>
    rw [List.forall₂_nil_left_iff, fillings]
    exact ⟨fun h => (Except.ok.inj h).symm, fun h => by rw [h]⟩
  | cons p ps ih =>
    obtain ⟨x, kind⟩ := p
    obtain ⟨hx, hps⟩ := List.nodup_cons.1 hps
    -- The parameter takes what it takes, and the ones behind it are bound to what is left.
    have hcons {filling : Filling} {left : List Value} (given : List (String × Value))
        (hthis : f.takes? args given ⟨x, kind⟩ = some filling)
        (hothers : ∀ p ∈ ps, f.takes? args given p =
          f.takes? args ((Param.names (ps.filter Param.isPlain)).zip left) p) :
        (do return (x, filling) :: (← f.fillings args ps left) : Except Fault _) = .ok es ↔
          List.Forall₂ (fun p e => p.name = e.1 ∧ f.takes? args given p = some e.2)
            (⟨x, kind⟩ :: ps) es := by
      have hrest (rest : List (String × Filling)) : f.fillings args ps left = .ok rest ↔
          List.Forall₂ (fun p e => p.name = e.1 ∧ f.takes? args given p = some e.2) ps rest :=
        (ih hps).trans (forall₂_congr_left fun p hp e => by rw [hothers p hp])
      rw [Except.bind_eq_ok, List.forall₂_cons_left_iff]
      constructor
      · rintro ⟨rest, h, hes⟩
        exact ⟨_, rest, ⟨rfl, hthis⟩, (hrest rest).1 h, (Except.ok.inj hes).symm⟩
      · rintro ⟨⟨y, filling'⟩, rest, ⟨rfl, htakes⟩, h, rfl⟩
        obtain rfl := Option.some.inj (hthis.symm.trans htakes)
        exact ⟨rest, (hrest rest).2 h, rfl⟩
    unfold fillings
    cases kind with
    | star => exact hcons _ rfl fun _ _ => rfl
    | starStar => exact hcons _ rfl fun _ _ => rfl
    | plain default? =>
      cases places with
      | cons v places =>
        refine hcons ((x, v) :: (Param.names (ps.filter Param.isPlain)).zip places) ?_
          fun p hp => ?_
        · unfold takes?
          dsimp only
          rw [List.lookup_cons_self]
          rfl
        · exact takes?_cons fun hname => hx (List.mem_map.2 ⟨p, hp, hname⟩)
      | nil =>
        dsimp only
        rw [List.zip_nil_right]
        cases htakes : (args.named.get? x).or default? with
        | some v =>
          refine hcons [] ?_ fun p _ => by rw [List.zip_nil_right]
          unfold takes?
          dsimp only
          rw [List.lookup_nil, Option.none_or, htakes]
          rfl
        | none =>
          refine iff_of_false (fun h => by cases h) fun h => ?_
          obtain ⟨e, _, ⟨-, hthis⟩, -⟩ := List.forall₂_cons_left_iff.1 h
          unfold takes? at hthis
          dsimp only at hthis
          rw [List.lookup_nil, Option.none_or, htakes] at hthis
          cases hthis

/-! ## Accepted arguments -/

/-- The arguments are for the parameters of the function: those by place are not more than there are
plain parameters, or there is one for all further ones; each one by name is for a plain parameter
that no argument by place is for, or for the parameter that takes all others; and no plain parameter
is left without a value. -/
structure Accepts (f : Function) (args : Arguments) : Prop where
  places : args.positional.length ≤ f.plainNames.length ∨ ∃ p ∈ f.params, p.isStar = true
  names : ∀ x ∈ args.named.keys, x ∈ f.plainNames.drop args.positional.length ∨
    x ∉ f.plainNames ∧ ∃ p ∈ f.params, p.isStarStar = true
  filled : ∀ p ∈ f.params, p.isPlain = true → p.name ∈ f.plainNames.drop args.positional.length →
    p.name ∈ args.named.keys ∨ p.default?.isSome = true

theorem mem_plainNames {p : Param Value} (hp : p ∈ f.params) (hplain : p.isPlain = true) :
    p.name ∈ f.plainNames :=
  List.mem_map.2 ⟨p, List.mem_filter.2 ⟨hp, hplain⟩, rfl⟩

theorem nodup_plainNames (hf : (Param.names f.params).Nodup) : f.plainNames.Nodup :=
  hf.sublist (List.filter_sublist.map _)

theorem checkPlaces_eq_ok {n : Nat} : f.checkPlaces n = .ok () ↔
    n ≤ f.plainNames.length ∨ ∃ p ∈ f.params, p.isStar = true := by
  rw [checkPlaces, ite_eq_left_iff]
  simp [or_comm, imp_iff_not_or]

theorem checkNames_eq_ok {n : Nat} {es : List (String × Value)} : f.checkNames n es = .ok () ↔
    ∀ x ∈ Entries.keys es, x ∉ f.plainNames.take n ∧
      (x ∈ f.plainNames ∨ ∃ p ∈ f.params, p.isStarStar = true) := by
  induction es with
  | nil => exact iff_of_true rfl fun _ h => absurd h List.not_mem_nil
  | cons e es ih =>
    obtain ⟨x, v⟩ := e
    have hfor : (f.plainNames.contains x || f.params.any Param.isStarStar) = true ↔
        x ∈ f.plainNames ∨ ∃ p ∈ f.params, p.isStarStar = true := by
      rw [Bool.or_eq_true_iff, List.contains_iff_mem, List.any_eq_true]
    rw [Entries.keys, List.map_cons, List.forall_mem_cons, ← Entries.keys, ← ih, checkNames]
    by_cases htaken : x ∈ f.plainNames.take n
    · rw [if_pos (List.contains_iff_mem.2 htaken)]
      exact iff_of_false (fun h => by cases h) fun h => h.1.1 htaken
    · rw [if_neg fun h => htaken (List.contains_iff_mem.1 h)]
      split
      · next h => exact (and_iff_right ⟨htaken, hfor.1 h⟩).symm
      · next h => exact iff_of_false (fun h => by cases h) fun hall => h (hfor.2 hall.1.2)

/-- A plain parameter gets an argument by place or lies behind those that do. -/
theorem mem_drop_iff {xs : List String} (hxs : xs.Nodup) {x : String} {n : Nat} :
    x ∈ xs.drop n ↔ x ∈ xs ∧ x ∉ xs.take n := by
  have happend := List.take_append_drop n xs
  constructor
  · intro h
    refine ⟨List.mem_of_mem_drop h, fun htaken => ?_⟩
    rw [← happend] at hxs
    exact (List.nodup_append.1 hxs).2.2 x htaken x h rfl
  · rintro ⟨h, hnot⟩
    have h : x ∈ xs.take n ++ xs.drop n := by rwa [happend]
    exact (List.mem_append.1 h).resolve_left hnot

/-- The arguments by name are for parameters that are not filled, or for the one that takes all
others. -/
theorem mem_drop_or_iff (hf : (Param.names f.params).Nodup) {x : String} {n : Nat} {Q : Prop} :
    x ∉ f.plainNames.take n ∧ (x ∈ f.plainNames ∨ Q) ↔
      x ∈ f.plainNames.drop n ∨ x ∉ f.plainNames ∧ Q := by
  have htaken : x ∈ f.plainNames.take n → x ∈ f.plainNames := List.mem_of_mem_take
  rw [mem_drop_iff (nodup_plainNames hf)]
  tauto

/-! ## Arguments by place -/

theorem keys_zip (xs : List String) (vs : List Value) :
    Entries.keys (xs.zip vs) = xs.take vs.length := by
  induction xs generalizing vs with
  | nil => exact List.take_nil.symm
  | cons x xs ih =>
    cases vs with
    | nil => rfl
    | cons v vs => exact congrArg (x :: ·) (ih vs)

/-- The argument with a place is for the parameter with the place. -/
theorem lookup_zip {xs : List String} (hxs : xs.Nodup) {vs : List Value} {i : Nat} {x : String}
    {v : Value} (hx : xs[i]? = some x) (hv : vs[i]? = some v) : (xs.zip vs).lookup x = some v := by
  have hkeys : (Entries.keys (xs.zip vs)).Nodup := by
    rw [keys_zip]
    exact hxs.sublist (List.take_sublist _ _)
  have hmem : (x, v) ∈ xs.zip vs :=
    List.mem_iff_getElem?.2 ⟨i, List.getElem?_zip_eq_some.2 ⟨hx, hv⟩⟩
  exact Table.get?_of_mem (t := ⟨xs.zip vs, hkeys⟩) hmem

theorem lookup_zip_eq_none {xs : List String} {vs : List Value} {x : String} :
    (xs.zip vs).lookup x = none ↔ x ∉ xs.take vs.length := by
  rw [← Option.not_isSome_iff_eq_none, Entries.lookup_isSome_iff, keys_zip]

/-! ## Success -/

theorem takes?_of_isPlain {given : List (String × Value)} {p : Param Value}
    (hp : p.isPlain = true) :
    f.takes? args given p =
      ((given.lookup p.name).or ((args.named.get? p.name).or p.default?)).map .value := by
  obtain ⟨x, kind⟩ := p
  cases kind with
  | plain default? => rfl
  | star | starStar => cases hp

/-- A plain parameter behind those that arguments by place are for takes its name's argument, or its
default. -/
theorem takes?_of_mem_drop (hf : (Param.names f.params).Nodup) {p : Param Value}
    (hp : p.isPlain = true) (hdrop : p.name ∈ f.plainNames.drop args.positional.length) :
    f.takes? args (f.plainNames.zip args.positional) p =
      ((args.named.get? p.name).or p.default?).map .value := by
  have hnone := lookup_zip_eq_none.2 ((mem_drop_iff (nodup_plainNames hf)).1 hdrop).2
  rw [takes?_of_isPlain hp, hnone, Option.none_or]

/-- Arguments are bound if they are accepted, and then each parameter is bound to what it takes. -/
theorem bindArguments_eq_ok (hf : (Param.names f.params).Nodup) {es : List (String × Filling)} :
    f.bindArguments args = .ok es ↔ f.Accepts args ∧ List.Forall₂ (fun p e => p.name = e.1 ∧
      f.takes? args (f.plainNames.zip args.positional) p = some e.2) f.params es := by
  constructor
  · intro h
    obtain ⟨⟨⟩, hplaces, h⟩ := Except.bind_eq_ok.1 h
    obtain ⟨⟨⟩, hnames, h⟩ := Except.bind_eq_ok.1 h
    have htakes := (fillings_eq_ok hf).1 h
    refine ⟨⟨checkPlaces_eq_ok.1 hplaces, fun x hx => ?_, fun p hp hplain hdrop => ?_⟩, htakes⟩
    · exact (mem_drop_or_iff hf).1 (checkNames_eq_ok.1 hnames x hx)
    · obtain ⟨e, -, htake⟩ := exists_forall₂_iff.1 ⟨es, htakes⟩ p hp
      have hsome := Option.isSome_of_eq_some ((takes?_of_mem_drop hf hplain hdrop).symm.trans htake)
      rwa [Option.isSome_map, Option.isSome_or, Bool.or_eq_true_iff, Table.isSome_get?_iff] at hsome
  · rintro ⟨haccepts, htakes⟩
    have hnames := checkNames_eq_ok.2 fun x hx => (mem_drop_or_iff hf).2 (haccepts.names x hx)
    exact Except.bind_eq_ok.2 ⟨(), checkPlaces_eq_ok.2 haccepts.places,
      Except.bind_eq_ok.2 ⟨(), hnames, (fillings_eq_ok hf).2 htakes⟩⟩

/-- If arguments are accepted, every parameter takes something. -/
theorem Accepts.exists_takes (hf : (Param.names f.params).Nodup) (h : f.Accepts args)
    {p : Param Value} (hp : p ∈ f.params) :
    ∃ filling, f.takes? args (f.plainNames.zip args.positional) p = some filling := by
  by_cases hplain : p.isPlain = true
  · by_cases htaken : p.name ∈ f.plainNames.take args.positional.length
    · have hsome : (f.plainNames.zip args.positional).lookup p.name ≠ none :=
        fun hnone => lookup_zip_eq_none.1 hnone htaken
      obtain ⟨v, hv⟩ := Option.ne_none_iff_exists'.1 hsome
      exact ⟨.value v, by rw [takes?_of_isPlain hplain, hv]; rfl⟩
    · have hdrop := (mem_drop_iff (nodup_plainNames hf)).2 ⟨mem_plainNames hp hplain, htaken⟩
      rw [takes?_of_mem_drop hf hplain hdrop, ← Option.isSome_iff_exists, Option.isSome_map,
        Option.isSome_or, Bool.or_eq_true_iff, Table.isSome_get?_iff]
      exact h.filled p hp hplain hdrop
  · obtain ⟨x, kind⟩ := p
    cases kind with
    | plain default? => exact absurd rfl hplain
    | star => exact ⟨_, rfl⟩
    | starStar => exact ⟨_, rfl⟩

end Function

/-! ## The values of parameters -/

namespace Filling

/-- The value is what a parameter is bound to: further arguments make a tuple, or a dict with their
entries. -/
inductive Is (s : Store) : Filling → Value → Prop
  | value (v : Value) : Is s (.value v) v
  | rest (identity : Nat) (items : List Value) : Is s (.rest items) (.tuple identity items)
  | options {r : DictRef} {entries : Table Value} : s.dicts[r.index]? = some entries →
      Is s (.options entries) (.dict r)

variable {s t : Store}

theorem Is.grows {filling : Filling} {v : Value} (h : filling.Is s v) (hgrows : s.Grows t) :
    filling.Is t v := by
  cases h with
  | value => exact .value _
  | rest identity items => exact .rest identity items
  | options hr => exact .options (hgrows.dicts _ _ hr)

theorem exists_toValue (filling : Filling) (s : Store) :
    ∃ v t, filling.toValue s = .ok v t ∧ s.Grows t ∧ filling.Is t v := by
  cases filling with
  | value v => exact ⟨v, s, rfl, .refl s, .value v⟩
  | rest items => exact ⟨_, _, rfl, .newIdentity s, .rest _ items⟩
  | options entries =>
    refine ⟨_, _, rfl, .newDict s entries, .options ?_⟩
    exact Array.getElem?_push_size

/-- The values of all parameters can be made. -/
theorem exists_mapM_toValue (es : List (String × Filling)) (s : Store) :
    ∃ vs t, (es.mapM fun (name, filling) => return (name, ← filling.toValue) : Run _) s = .ok vs t ∧
      s.Grows t ∧ List.Forall₂ (fun e v => e.1 = v.1 ∧ e.2.Is t v.2) es vs := by
  induction es generalizing s with
  | nil => exact ⟨[], s, rfl, .refl s, .nil⟩
  | cons e es ih =>
    obtain ⟨name, filling⟩ := e
    obtain ⟨v, s₁, hv, hgrows, his⟩ := filling.exists_toValue s
    obtain ⟨vs, t, hvs, hgrows', hall⟩ := ih s₁
    refine ⟨(name, v) :: vs, t, ?_, hgrows.trans hgrows', .cons ⟨rfl, his.grows hgrows'⟩ hall⟩
    have hfirst : (do return (name, ← filling.toValue) : Run (String × Value)) s =
        .ok (name, v) s₁ :=
      EStateM.bind_ok hv
    rw [List.mapM_cons, EStateM.bind_ok hfirst, EStateM.bind_ok hvs]
    rfl

end Filling

/-! ## The theorem -/

namespace Function

/-- What the parameters of a function are bound to: each of them to one value, in the order of their
declaration.

* A plain parameter is bound to the argument with its place, else to the one with its name, else to
  its default.
* The parameter for further arguments by place is bound to the tuple of those behind the plain
  parameters' ones.
* The parameter for further arguments by name is bound to the dict of those with names that no plain
  parameter has, in the order of the call. -/
structure Bound (f : Function) (args : Arguments) (s : Store) (t : Table Value) : Prop where
  keys : t.keys = Param.names f.params
  place : ∀ (i : Nat) x v, f.plainNames[i]? = some x → args.positional[i]? = some v →
    t.get? x = some v
  name : ∀ x ∈ f.plainNames.drop args.positional.length, ∀ v,
    args.named.get? x = some v → t.get? x = some v
  byDefault : ∀ p ∈ f.params, p.isPlain = true → p.name ∈ f.plainNames.drop args.positional.length →
    p.name ∉ args.named.keys → t.get? p.name = p.default?
  rest : ∀ p ∈ f.params, p.isStar = true →
    ∃ identity, t.get? p.name = some (.tuple identity (args.positional.drop f.plainNames.length))
  options : ∀ p ∈ f.params, p.isStarStar = true → ∃ r, t.get? p.name = some (.dict r) ∧
    (s.dictEntries r).entries = args.named.entries.filter fun e => e.1 ∉ f.plainNames

variable {f : Function} {args : Arguments}

theorem exists_plain {x : String} (hx : x ∈ f.plainNames) :
    ∃ p ∈ f.params, p.isPlain = true ∧ p.name = x := by
  obtain ⟨p, hp, rfl⟩ := List.mem_map.1 hx
  obtain ⟨hp, hplain⟩ := List.mem_filter.1 hp
  exact ⟨p, hp, hplain, rfl⟩

/-- Parameters that have what each of them takes are bound as they should. -/
theorem bound_of_takes (hf : (Param.names f.params).Nodup) {s : Store} {t : Table Value}
    (hkeys : t.keys = Param.names f.params)
    (htakes : ∀ p ∈ f.params, ∃ v filling, t.get? p.name = some v ∧ filling.Is s v ∧
      f.takes? args (f.plainNames.zip args.positional) p = some filling) : f.Bound args s t where
  keys := hkeys
  place i x v hx hv := by
    obtain ⟨p, hp, hplain, rfl⟩ := exists_plain (List.mem_of_getElem? hx)
    obtain ⟨w, filling, hw, his, htake⟩ := htakes p hp
    rw [takes?_of_isPlain hplain, lookup_zip (nodup_plainNames hf) hx hv] at htake
    cases htake
    cases his
    exact hw
  name x hx v hv := by
    obtain ⟨p, hp, hplain, rfl⟩ := exists_plain (List.mem_of_mem_drop hx)
    obtain ⟨w, filling, hw, his, htake⟩ := htakes p hp
    rw [takes?_of_mem_drop hf hplain hx, hv] at htake
    cases htake
    cases his
    exact hw
  byDefault p hp hplain hdrop hnot := by
    obtain ⟨w, filling, hw, his, htake⟩ := htakes p hp
    have hnone : args.named.get? p.name = none := Table.get?_eq_none_iff.2 hnot
    rw [takes?_of_mem_drop hf hplain hdrop, hnone, Option.none_or] at htake
    obtain ⟨v, hv, rfl⟩ := Option.map_eq_some_iff.1 htake
    cases his
    rw [hw, hv]
  rest p hp hstar := by
    obtain ⟨w, filling, hw, his, htake⟩ := htakes p hp
    obtain ⟨x, kind⟩ := p
    cases kind with
    | star =>
      cases htake
      cases his
      exact ⟨_, hw⟩
    | plain | starStar => cases hstar
  options p hp hstarStar := by
    obtain ⟨w, filling, hw, his, htake⟩ := htakes p hp
    obtain ⟨x, kind⟩ := p
    cases kind with
    | starStar =>
      cases htake
      cases his with
      | @options r entries hr =>
        refine ⟨r, hw, ?_⟩
        rw [Store.dictEntries, hr]
        refine List.filter_congr fun e _ => ?_
        simp
    | plain | star => cases hstarStar

/-- The parameters of the function are those of a definition in a script that was read, with the
values of their defaults. -/
def Declared (f : Function) : Prop :=
  ∃ script : Script, script.Arises ∧ ∃ span x ds ps b,
    Stmt.define span x ds ps b ∈ Stmt.withinAll script.body ∧
      ∃ call frame s t, Run.evalParams call frame ps s = .ok f.params t

/-- Parameters that were read have names of their own. -/
theorem Declared.distinct (h : f.Declared) : (Param.names f.params).Nodup := by
  obtain ⟨script, harises, span, x, ds, ps, b, hmem, call, frame, s, t, hparams⟩ := h
  have hdefine := Stmt.forall_mem_withinAll (fun s hs => (harises.formed s hs).within) _ hmem
  rw [Run.names_of_evalParams hparams]
  cases hdefine with
  | define span hx hds horder hps hbody hformed => exact horder.distinct

end Function

/-- Binding arguments loses and doubles nothing.  Arguments are bound exactly if they are accepted,
and then every parameter is bound to what it should, in the order of the declaration. -/
theorem Run.bindArguments_exact {f : Function} (hf : f.Declared) (args : Arguments) (s : Store) :
    ((∃ t s', bindArguments f args s = .ok t s') ↔ f.Accepts args) ∧
      ∀ t s', bindArguments f args s = .ok t s' → f.Bound args s' t := by
  have hdistinct := hf.distinct
  refine ⟨⟨?_, fun h => ?_⟩, fun t s' h => ?_⟩
  · rintro ⟨t, s', h⟩
    obtain ⟨es, s₁, hes, -⟩ := EStateM.bind_eq_ok.1 h
    exact ((Function.bindArguments_eq_ok hdistinct).1 (ofExcept_eq_ok.1 hes).1).1
  · have htakes : ∀ p ∈ f.params, ∃ e : String × Filling, p.name = e.1 ∧
        f.takes? args (f.plainNames.zip args.positional) p = some e.2 := by
      intro p hp
      obtain ⟨filling, htake⟩ := h.exists_takes hdistinct hp
      exact ⟨(p.name, filling), rfl, htake⟩
    obtain ⟨es, hes⟩ := exists_forall₂_iff.2 htakes
    have hall := (Function.bindArguments_eq_ok hdistinct).2 ⟨h, hes⟩
    obtain ⟨vs, s', hvs, -⟩ := Filling.exists_mapM_toValue es s
    exact ⟨Table.ofList vs, s', EStateM.bind_eq_ok.2 ⟨es, s, ofExcept_eq_ok.2 ⟨hall, rfl⟩,
      EStateM.bind_eq_ok.2 ⟨vs, s', hvs, rfl⟩⟩⟩
  · obtain ⟨es, s₁, hes, h⟩ := EStateM.bind_eq_ok.1 h
    obtain ⟨hbind, rfl⟩ := ofExcept_eq_ok.1 hes
    obtain ⟨-, hall⟩ := (Function.bindArguments_eq_ok hdistinct).1 hbind
    obtain ⟨vs, s₂, hvs, hgrows, his⟩ := Filling.exists_mapM_toValue es s
    rw [EStateM.bind_ok hvs] at h
    cases h
    -- No parameter has the name of another one, so that each has one entry.
    have hnames : Entries.keys vs = Param.names f.params :=
      (map_eq_map_of_forall₂ his fun _ _ h => h.1).symm.trans
        (map_eq_map_of_forall₂ hall fun _ _ h => h.1).symm
    have hentries : (Table.ofList vs).entries = vs := Table.entries_ofList (hnames ▸ hdistinct)
    refine Function.bound_of_takes hdistinct ?_ fun p hp => ?_
    · rw [Table.keys, hentries, hnames]
    · obtain ⟨e, he, hname, htake⟩ := exists_mem_of_forall₂ hall hp
      obtain ⟨v, hv, hname', hvalue⟩ := exists_mem_of_forall₂ his he
      refine ⟨v.2, e.2, ?_, hvalue, htake⟩
      rw [hname, hname']
      exact Table.get?_of_mem (hentries.symm ▸ hv)

/-- A function with a parameter of each kind. -/
def sampleBinder : Function where
  name := "f"
  definition := ⟨"f", [], [], []⟩
  params := [⟨"a", .plain none⟩, ⟨"b", .plain (some (.int 10))⟩, ⟨"rest", .star⟩,
    ⟨"opts", .starStar⟩]
  globals := ⟨0⟩
  captured := .empty
  origin := ⟨⟨"", ""⟩, 0, ⟨0, 0⟩⟩

/-- Whether a text defines a function with these parameters first. -/
def sampleBinderTrial : Bool :=
  match Script.parse "def f(a, b=10, *rest, **opts):\n    pass\n" "sample" with
  | .ok ⟨.define _ _ _ [⟨"a", .plain none⟩, ⟨"b", .plain (some (.int _ 10))⟩, ⟨"rest", .star⟩,
      ⟨"opts", .starStar⟩] _ :: _, _, _⟩ => true
  | _ => false

/-- Arguments with the names of the parameters for further ones are further ones themselves. -/
theorem sampleBinder_bound :
    let args : Arguments := ⟨[.int 1], .ofList [("rest", .int 5), ("opts", .int 6)]⟩
    sampleBinder.Declared ∧ sampleBinder.Accepts args ∧ ∃ t s',
      Run.bindArguments sampleBinder args .empty = .ok t s' ∧ t.keys = ["a", "b", "rest", "opts"] ∧
      t.get? "a" = some (.int 1) ∧ t.get? "b" = some (.int 10) ∧
      (∃ identity, t.get? "rest" = some (.tuple identity [])) ∧
      ∃ r, t.get? "opts" = some (.dict r) ∧
        (s'.dictEntries r).entries = [("rest", .int 5), ("opts", .int 6)] := by
  intro args
  have hdeclared : sampleBinder.Declared := by
    have htrial : sampleBinderTrial = true := by decide +kernel
    unfold sampleBinderTrial at htrial
    split at htrial
    · next span x ds spanDefault b rest source offset hparse =>
      refine ⟨_, .parse hparse, span, x, ds, _, b, List.mem_append_left _ List.mem_cons_self, ?_⟩
      exact ⟨fun _ _ => Run.fail (.undefined ""), ⟨⟨0⟩, ⟨0⟩, none, ⟨"", ""⟩, 0⟩, .empty,
        .empty, rfl⟩
    · cases htrial
  have haccepts : sampleBinder.Accepts args := by
    refine ⟨by decide, by decide, fun p hp hplain hdrop => ?_⟩
    simp only [sampleBinder, List.mem_cons, List.not_mem_nil, or_false] at hp
    rcases hp with rfl | rfl | rfl | rfl
    · exact absurd hdrop (by decide)
    · exact .inr rfl
    · cases hplain
    · cases hplain
  obtain ⟨t, s', h⟩ := (Run.bindArguments_exact hdeclared args .empty).1.2 haccepts
  have hbound := (Run.bindArguments_exact hdeclared args .empty).2 t s' h
  have hrest := hbound.rest ⟨"rest", .star⟩ (by simp [sampleBinder]) rfl
  obtain ⟨r, hr, hentries⟩ := hbound.options ⟨"opts", .starStar⟩ (by simp [sampleBinder]) rfl
  refine ⟨hdeclared, haccepts, t, s', h, hbound.keys, hbound.place 0 "a" (.int 1) rfl rfl, ?_,
    hrest, r, hr, ?_⟩
  · exact hbound.byDefault ⟨"b", .plain (some (.int 10))⟩ (by simp [sampleBinder]) rfl (by decide)
      (by decide)
  · rw [hentries]
    rfl

end StagedScript
