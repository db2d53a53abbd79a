import StagedScript.Proofs.Basic
import StagedScript.Proofs.Closures
import StagedScript.Proofs.Scoping.Captures
import StagedScript.Proofs.Scoping.Writes
import StagedScript.Proofs.Unrolling.Specialized

/-!
# Closures and their makers

The values that a closure has for names, and the function that its maker makes with them.
-/

/-!
## The values of a closure

A value that is given for a name is fixed first: if its items can change or are made on demand, they
are put into a tuple.  What the function has captured stands behind what is given, and the name that
unrolling goes by always stands for the value that changes nothing.
-/

namespace StagedScript

/-! ## Fixed values -/

/-- What a value is fixed to: a list, a dict, a range and a record to a tuple of the items that it
has in the store, and every other value to itself.  The keys of a dict are new texts. -/
inductive Value.FixedTo (s : Store) : Value → Value → Prop
  | list (r : ListRef) (identity : Nat) :
      FixedTo s (.list r) (.tuple identity (s.listItems r).toList)
  | dict (r : DictRef) (identity : Nat) {keys : List Value} :
      List.Forall₂ (fun text key => ∃ i, key = .str i text) (s.dictEntries r).keys keys →
      FixedTo s (.dict r) (.tuple identity keys)
  | range (r : Range) (identity : Nat) : FixedTo s (.range r) (.tuple identity (r.items.map .int))
  | record (r : RecordRef) (identity : Nat) :
      FixedTo s (.record r) (.tuple identity (s.getRecord r).slots)
  | same {v : Value} : (∀ r, v ≠ .list r) → (∀ r, v ≠ .dict r) → (∀ r, v ≠ .range r) →
      (∀ r, v ≠ .record r) → FixedTo s v v

/-- The stores differ only in the identities that have been given away. -/
def Store.SameButIdentities (s t : Store) : Prop := { s with nextIdentity := t.nextIdentity } = t

namespace Store.SameButIdentities

variable {s t u : Store}

theorem refl (s : Store) : s.SameButIdentities s := rfl

theorem trans (hst : s.SameButIdentities t) (htu : t.SameButIdentities u) :
    s.SameButIdentities u := by
  unfold SameButIdentities at *
  rw [← hst] at htu
  exact htu

theorem newIdentity (s : Store) : s.SameButIdentities s.newIdentity.2 := rfl

/-- Identities do not matter to what a value is fixed to. -/
theorem fixedTo (h : s.SameButIdentities t) {v w : Value} (hv : v.FixedTo t w) : v.FixedTo s w := by
  unfold SameButIdentities at h
  rw [← h] at hv
  cases hv with
  | list r identity => exact .list r identity
  | dict r identity hkeys => exact .dict r identity hkeys
  | range r identity => exact .range r identity
  | record r identity => exact .record r identity
  | same hlist hdict hrange hrecord => exact .same hlist hdict hrange hrecord

end Store.SameButIdentities

namespace Run

/-- Each text is made anew. -/
theorem mapM_take_texts {texts : List String} {s t : Store} {vs : List Value}
    (h : (texts.map Member.text).mapM Member.take s = .ok vs t) : s.SameButIdentities t ∧
      List.Forall₂ (fun text v => ∃ i, v = .str i text) texts vs := by
  induction texts generalizing s vs with
  | nil =>
    cases h
    exact ⟨.refl _, .nil⟩
  | cons text texts ih =>
    rw [List.map_cons, List.mapM_cons] at h
    obtain ⟨v, s₁, hv, hrest⟩ := EStateM.bind_eq_ok.1 h
    cases hv
    obtain ⟨rest, s₂, hrest, hpure⟩ := EStateM.bind_eq_ok.1 hrest
    cases hpure
    obtain ⟨hsame, htexts⟩ := ih hrest
    exact ⟨(Store.SameButIdentities.newIdentity s).trans hsame, .cons ⟨_, rfl⟩ htexts⟩

end Run

namespace Closure

open Run

/-- A tuple of items that are there already. -/
theorem newTuple_of_items {v w : Value} {s t : Store} {vs : List Value} (hv : items v s = .ok vs s)
    (h : (do Run.newTuple (← items v)) s = .ok w t) :
    ∃ identity, w = .tuple identity vs ∧ s.SameButIdentities t := by
  rw [EStateM.bind_ok hv] at h
  cases h
  exact ⟨_, rfl, .newIdentity s⟩

theorem fixed_eq_ok {v w : Value} {s t : Store} (h : fixed v s = .ok w t) :
    v.FixedTo s w ∧ s.SameButIdentities t := by
  have hdict {r : DictRef} : members (.dict r) s =
      .ok ((s.dictEntries r).keys.map Member.text) s := rfl
  cases v with
  | list r =>
    obtain ⟨identity, rfl, hsame⟩ := newTuple_of_items (items_of_members rfl) h
    exact ⟨.list r identity, hsame⟩
  | range r =>
    have hmembers : members (.range r) s = .ok ((r.items.map Value.int).map Member.value) s := by
      rw [List.map_map]
      rfl
    obtain ⟨identity, rfl, hsame⟩ := newTuple_of_items (items_of_members hmembers) h
    exact ⟨.range r identity, hsame⟩
  | record r =>
    obtain ⟨identity, rfl, hsame⟩ := newTuple_of_items (items_of_members rfl) h
    exact ⟨.record r identity, hsame⟩
  | dict r =>
    obtain ⟨keys, s₁, hkeys, h⟩ := EStateM.bind_eq_ok.1 h
    unfold items at hkeys
    rw [EStateM.bind_ok hdict] at hkeys
    obtain ⟨hsame, htexts⟩ := mapM_take_texts hkeys
    cases h
    exact ⟨.dict r _ htexts, hsame.trans (.newIdentity s₁)⟩
  | _ =>
    cases h
    exact ⟨.same nofun nofun nofun nofun, .refl s⟩

/-- Every value can be fixed. -/
theorem exists_fixed (v : Value) (s : Store) : ∃ w t, fixed v s = .ok w t := by
  have htuple {ms : List Member} (h : members v s = .ok ms s) :
      ∃ w t, (do Run.newTuple (← items v)) s = .ok w t := by
    obtain ⟨vs, s₁, hitems⟩ := exists_items_of_members h
    rw [EStateM.bind_ok hitems]
    exact ⟨_, _, rfl⟩
  cases v with
  | list r => exact htuple rfl
  | dict r => exact htuple rfl
  | range r => exact htuple rfl
  | record r => exact htuple rfl
  | _ => exact ⟨_, s, rfl⟩

/-! ## What is given for a name -/

/-- Values can be given for names. -/
theorem exists_fixedAll {es : List (String × Value)}
    (hes : ∀ x ∈ Entries.keys es, Word.isName x = true) (s : Store) :
    ∃ given t, fixedAll es s = .ok given t := by
  induction es generalizing s with
  | nil => exact ⟨[], s, rfl⟩
  | cons e es ih =>
    have hname : Word.isName e.1 = true := hes e.1 List.mem_cons_self
    have hrest (s : Store) := ih (fun x hx => hes x (List.mem_cons_of_mem _ hx)) s
    unfold fixedAll
    simp only [hname, Bool.not_true, Bool.false_eq_true, if_false]
    split
    · exact hrest s
    · obtain ⟨v, s₁, hv⟩ := exists_fixed e.2 s
      obtain ⟨given, t, hgiven⟩ := hrest s₁
      rw [EStateM.bind_ok (Specialize.ofRun_eq_ok.2 hv), EStateM.bind_ok hgiven]
      exact ⟨_, _, rfl⟩

theorem keys_fixedAll {es given : List (String × Value)} {s t : Store}
    (h : fixedAll es s = .ok given t) :
    Entries.keys given = (Entries.keys es).filter (· != unrollName) := by
  induction es generalizing s given with
  | nil =>
    cases h
    rfl
  | cons e es ih =>
    have hkeys : Entries.keys (e :: es) = e.1 :: Entries.keys es := rfl
    obtain ⟨-, ⟨heq, h⟩ | ⟨hne, v, rest, s₁, -, hrest, rfl⟩⟩ := fixedAll_cons h
    · rw [hkeys, heq, List.filter_cons, bne_self_eq_false, if_neg Bool.false_ne_true]
      exact ih h
    · rw [hkeys, List.filter_cons, if_pos (bne_iff_ne.2 hne), ← ih hrest]
      rfl

/-- Every value that counts is fixed to what it is in the store at the start. -/
theorem fixedTo_of_fixedAll {es given : List (String × Value)} {s t : Store}
    (h : fixedAll es s = .ok given t) : s.SameButIdentities t ∧
      ∀ x v, x ≠ unrollName → (x, v) ∈ es → ∃ w, v.FixedTo s w ∧ (x, w) ∈ given := by
  induction es generalizing s given with
  | nil =>
    cases h
    exact ⟨.refl _, fun _ _ _ h => (List.not_mem_nil h).elim⟩
  | cons e es ih =>
    obtain ⟨-, ⟨heq, h⟩ | ⟨-, v, rest, s₁, hv, hrest, rfl⟩⟩ := fixedAll_cons h
    · obtain ⟨hsame, hgiven⟩ := ih h
      refine ⟨hsame, fun x w hx hmem => ?_⟩
      rcases List.mem_cons.1 hmem with rfl | hmem
      · exact absurd heq hx
      · exact hgiven x w hx hmem
    · obtain ⟨hto, hsame⟩ := fixed_eq_ok (Specialize.ofRun_eq_ok.1 hv)
      obtain ⟨hsame', hgiven⟩ := ih hrest
      refine ⟨hsame.trans hsame', fun x w hx hmem => ?_⟩
      rcases List.mem_cons.1 hmem with rfl | hmem
      · exact ⟨v, hto, List.mem_cons_self⟩
      · obtain ⟨w', hw, hmem'⟩ := hgiven x w hx hmem
        exact ⟨w', hsame.fixedTo hw, List.mem_cons_of_mem _ hmem'⟩

end Closure

/-! ## Tables of values -/

/-- Of several entries for a name the first one counts, if those of a table come first. -/
theorem Table.get?_insertAll_filter {α : Type} (t : Table α) (u : Table α) (x : String) :
    (t.insertAll (u.entries.filter fun e => !t.contains e.1)).get? x = (t.get? x <|> u.get? x) := by
  let v := u.filter fun name _ => !t.contains name
  have hv : v.entries = u.entries.filter fun e => !t.contains e.1 := rfl
  have hget : v.get? x = if !t.contains x then u.get? x else none :=
    Table.get?_filter (fun name => !t.contains name) u x
  by_cases hx : x ∈ t.keys
  · obtain ⟨w, hw⟩ := Table.mem_keys_iff.1 hx
    have hnot : x ∉ v.keys := by
      rw [← Table.get?_eq_none_iff, hget, Table.contains_iff.2 hx]
      rfl
    rw [← hv, Table.get?_insertAll hnot, hw]
    rfl
  · have hnone : t.get? x = none := Table.get?_eq_none_iff.2 hx
    have hcontains : t.contains x = false := by
      rw [← Bool.not_eq_true, Table.contains_iff]
      exact hx
    rw [hcontains, Bool.not_false, if_pos rfl] at hget
    -- The names of the two do not meet, so the entries of both are those of the whole.
    have hkeys : (t.keys ++ Entries.keys v.entries).Nodup := by
      rw [List.nodup_append]
      refine ⟨t.nodup, v.nodup, fun a ha b hb hab => ?_⟩
      subst hab
      obtain ⟨e, he, rfl⟩ := List.mem_map.1 hb
      have hnot : (!t.contains e.1) = true := (List.mem_filter.1 he).2
      rw [Table.contains_iff.2 ha] at hnot
      cases hnot
    have hentries := Table.insertAll_entries t v.entries hkeys
    rw [← hv, Table.get?, hentries, List.lookup_append, show t.entries.lookup x = none from hnone,
      hnone, ← hget, Option.none_or]
    rfl

namespace Closure

/-- What a closure holds for a name. -/
theorem get?_vars (given : List (String × Value)) (captured : Table Value) (passing : Value)
    (x : String) : (varsOf given captured passing).get? x =
      if x = unrollName then some passing
      else ((Table.ofList given).get? x <|> captured.get? x) := by
  unfold varsOf
  rw [Table.get?_insert]
  exact if_congr Iff.rfl rfl (Table.get?_insertAll_filter _ _ x)

end Closure

end StagedScript

/-!
## What a maker makes

The body of a maker is the definition of a function and a return of it.  When the maker is called
with the values of names, the function that it makes captures those of them that it needs from
outside.
-/

namespace StagedScript

open Run

/-! ## The body of a maker -/

/-- The definition of a function without decorators, and a return of it. -/
def Maker.body (span at_ spanName : Span) (d : Definition) : List Stmt :=
  [.define span d.name [] d.params d.body, .ret at_ (some (.name spanName d.name))]

/-- A definition with its decorators, and a return of what its name is bound to. -/
def Maker.decorated (span at_ spanName : Span) (d : Definition) : List Stmt :=
  [.define span d.name d.decorators d.params d.body, .ret at_ (some (.name spanName d.name))]

theorem Maker.decorated_eq_body {span at_ spanName : Span} {d : Definition}
    (hd : d.decorators = []) :
    decorated span at_ spanName d = body span at_ spanName d := by
  rw [decorated, body, hd]

/-- The frame of a call of a maker. -/
def Script.makerFrame (script : Script) (globals locals : NamespaceRef) : Frame :=
  ⟨locals, globals, some .empty, script.source, script.lineOffset⟩

theorem Run.locating_eq_ok {α : Type} {location : Unit → Location} {x : Run α} {a : α}
    {s t : Store} :
    locating location x s = .ok a t ↔ x s = .ok a t := by
  unfold locating
  split
  · next h => simp [h]
  · rfl

theorem Run.names_of_evalParams {call : Caller} {f : Frame} {ps : List (Param Expr)}
    {vs : List (Param Value)} {s t : Store} (h : evalParams call f ps s = .ok vs t) :
    Param.names vs = Param.names ps := by
  induction ps generalizing vs s with
  | nil =>
    cases h
    rfl
  | cons p ps ih =>
    obtain ⟨name, kind⟩ := p
    have hbehind {kind' : ParamKind Value} {s₁ : Store}
        (h : (do return ⟨name, kind'⟩ :: (← evalParams call f ps) : Run _) s₁ = .ok vs t) :
        Param.names vs = Param.names (⟨name, kind⟩ :: ps) := by
      obtain ⟨rest, s₂, hrest, h⟩ := EStateM.bind_eq_ok.1 h
      cases h
      exact congrArg (name :: ·) (ih hrest)
    unfold evalParams at h
    cases kind with
    | plain default? =>
      cases default? with
      | none => exact hbehind h
      | some e =>
        obtain ⟨v, s₁, -, h⟩ := EStateM.bind_eq_ok.1 h
        exact hbehind h
    | star | starStar => exact hbehind h

/-- The function that a maker makes of a definition. -/
def Script.remade (script : Script) (globals locals : NamespaceRef) (span : Span) (d : Definition)
    (params : List (Param Value)) (s : Store) : Function where
  name := d.name
  definition := d
  params := params
  globals := globals
  captured := (script.makerFrame globals locals).capture s d.freeNames
  origin := ⟨script.source, script.lineOffset, span⟩

/-- The store with a function that is bound to its name in a namespace. -/
def Store.withFunction (s : Store) (g : Function) (locals : NamespaceRef) : Store :=
  (s.newFunction g).2.bind locals g.name (.function ⟨s.functions.size⟩)

variable {call : Caller} {script : Script} {globals : NamespaceRef} {d : Definition}
  {span at_ spanName : Span} {s t : Store} {w : Value}

/-- In a frame where its definition is executed a function is made once the defaults have values. -/
theorem Run.define_eq_ok (hd : d.decorators = []) (f : Frame) :
    define call f span d s = .ok w t ↔ ∃ params s₁, evalParams call f d.params s = .ok params s₁ ∧
      w = .function ⟨s₁.functions.size⟩ ∧
      t = (s₁.newFunction ⟨d.name, d, params, f.globals, f.capture s₁ d.freeNames,
        f.origin span⟩).2 := by
  rw [define_eq, made, hd, evalAll, pure_bind, bind_assoc, EStateM.bind_eq_ok]
  constructor
  · rintro ⟨params, s₁, hparams, h⟩
    cases h
    exact ⟨params, s₁, hparams, rfl, rfl⟩
  · rintro ⟨params, s₁, hparams, rfl, rfl⟩
    exact ⟨params, s₁, hparams, rfl⟩

/-- The body of a maker executes the definition and returns what its name is bound to. -/
theorem Run.execAll_decorated (hcall : call.Confined) (rounds : Nat) {locals : NamespaceRef}
    (hlocals : locals.index < s.namespaces.size) {flow : Flow} :
    execAll call rounds (script.makerFrame globals locals) (Maker.decorated span at_ spanName d) s =
        .ok flow t ↔
      ∃ v s₁, define call (script.makerFrame globals locals) span d s = .ok v s₁ ∧ flow = .ret v ∧
        t = s₁.bind locals d.name v := by
  -- The name is found where it has just been bound.
  have hreturn {u : Store} {v : Value} (hfound : (u.bindings locals).get? d.name = some v) :
      execAll call rounds (script.makerFrame globals locals)
        [.ret at_ (some (.name spanName d.name))] u = .ok (.ret v) u := by
    have hfind : (script.makerFrame globals locals).find? u d.name = some v := by
      unfold Frame.find?
      rw [show (script.makerFrame globals locals).locals = locals from rfl, hfound]
      rfl
    have hlookup : eval call (script.makerFrame globals locals) (.name spanName d.name) u =
        .ok v u := by
      have hview : view ((script.makerFrame globals locals).find? · d.name) u =
          .ok ((script.makerFrame globals locals).find? u d.name) u := rfl
      unfold eval Run.lookup
      rw [EStateM.bind_ok hview, hfind]
      rfl
    have hexec : exec call rounds (script.makerFrame globals locals)
        (.ret at_ (some (.name spanName d.name))) u = .ok (.ret v) u := by
      unfold exec
      rw [EStateM.bind_ok hlookup]
      rfl
    unfold execAll
    rw [EStateM.bind_ok (locating_eq_ok.2 hexec)]
    rfl
  have hbound {v : Value} {s₁ : Store}
      (h : define call (script.makerFrame globals locals) span d s = .ok v s₁) :
      ((s₁.bind locals d.name v).bindings locals).get? d.name = some v := by
    have hconfined : Run.Confined (fun _ => False)
        (define call (script.makerFrame globals locals) span d) :=
      define_confined hcall _ span d
    exact Store.get?_bindings_bind _ _ (Nat.lt_of_lt_of_le hlocals (hconfined.extends_of_ok h).size)
  unfold Maker.decorated execAll
  rw [EStateM.bind_eq_ok]
  constructor
  · rintro ⟨flow₁, s₂, hdefine, h⟩
    rw [locating_eq_ok] at hdefine
    unfold exec at hdefine
    obtain ⟨v, s₁, hv, hbind⟩ := EStateM.bind_eq_ok.1 hdefine
    cases hbind
    have h' := (hreturn (hbound hv)).symm.trans h
    cases h'
    exact ⟨v, s₁, hv, rfl, rfl⟩
  · rintro ⟨v, s₁, hv, rfl, rfl⟩
    refine ⟨.next, s₁.bind locals d.name v, ?_, hreturn (hbound hv)⟩
    rw [locating_eq_ok]
    unfold exec
    exact EStateM.bind_ok hv

/-! ## Calling a maker -/

/-- The store in which the body of a maker is executed: the maker has been made, and the values of
its names are bound. -/
def Store.inMaker (s : Store) (maker : Function) (vars : Table Value) : Store :=
  ((s.withMaker maker).newNamespace vars).2

/-- Where the names of a maker are bound. -/
def Store.makerLocals (s : Store) (maker : Function) : NamespaceRef :=
  ⟨(s.withMaker maker).namespaces.size⟩

theorem Store.bindings_inMaker (s : Store) (maker : Function) (vars : Table Value) :
    (s.inMaker maker vars).bindings (s.makerLocals maker) = vars := by
  simp [Store.inMaker, Store.makerLocals, Store.newNamespace, Store.bindings]

theorem Store.makerLocals_lt (s : Store) (maker : Function) (vars : Table Value) :
    (s.makerLocals maker).index < (s.inMaker maker vars).namespaces.size := by
  simp [Store.inMaker, Store.makerLocals, Store.newNamespace]

/-- A maker that is called with the values of its names executes the definition in its body. -/
theorem Run.callBody_decorated (hcall : call.Confined) (rounds : Nat) {makerSpan : Span}
    {vars : Table Value} {maker : Function}
    (hmaker : maker = script.maker globals vars.keys makerSpan
      (Maker.decorated span at_ spanName d)) :
    callBody call rounds maker ⟨[], vars⟩ (s.withMaker maker) = .ok w t ↔
      ∃ s₁, define call (script.makerFrame globals (s.makerLocals maker)) span d
        (s.inMaker maker vars) =
        .ok w s₁ ∧ t = s₁.bind (s.makerLocals maker) d.name w := by
  have hargs : bindArguments maker ⟨[], vars⟩ (s.withMaker maker) =
      .ok vars (s.withMaker maker) := by
    rw [Function.bindArguments_plain maker vars (by rw [hmaker]; rfl)]
    rfl
  have hstart : maker.start ⟨[], vars⟩ (s.withMaker maker) =
      .ok (script.makerFrame globals (s.makerLocals maker)) (s.inMaker maker vars) := by
    have hinside : (do Run.make (·.newNamespace (← bindArguments maker ⟨[], vars⟩)) : Run _)
        (s.withMaker maker) = .ok (s.makerLocals maker) (s.inMaker maker vars) := by
      rw [EStateM.bind_ok hargs]
      rfl
    unfold Function.start
    rw [← bind_assoc, EStateM.bind_ok hinside]
    rw [hmaker]
    rfl
  have hbody : maker.definition.body = Maker.decorated span at_ spanName d := by rw [hmaker]; rfl
  have hlocals := s.makerLocals_lt maker vars
  rw [callBody_eq, EStateM.bind_ok hstart, hbody]
  constructor
  · intro h
    obtain ⟨flow, s₂, hflow, h⟩ := EStateM.bind_eq_ok.1 h
    obtain ⟨v, s₁, hv, rfl, rfl⟩ := (execAll_decorated hcall rounds hlocals).1 hflow
    cases h
    exact ⟨s₁, hv, rfl⟩
  · rintro ⟨s₁, hv, rfl⟩
    rw [EStateM.bind_ok ((execAll_decorated hcall rounds hlocals).2 ⟨w, s₁, hv, rfl, rfl⟩)]
    rfl

namespace Closure

variable {host : Host} (hhost : host.Confined) {fuel rounds : Nat} {m : Machine} {c : Closure}
  {makerSpan : Span}
include hhost

/-- A function is made anew if no control statement of it is misplaced, calls may nest so deeply,
and its definition can be executed where the values of the names are bound. -/
theorem make_decorated (hscript : c.unrolled = .ok script)
    (hbody : script.DefinesMaker c.vars.keys makerSpan (Maker.decorated span at_ spanName d))
    {maker : Function}
    (hmaker : maker = script.maker c.function.globals c.vars.keys makerSpan
      (Maker.decorated span at_ spanName d)) :
    c.make (callIn host (fuel + 1) m) rounds s = .ok w t ↔
      Stmt.misplacedIn? .function (Maker.decorated span at_ spanName d) = none ∧
      m.depth < Machine.maxDepth ∧
      ∃ s₁, define (callIn host fuel m.deeper)
          (script.makerFrame c.function.globals (s.makerLocals maker)) span d
            (s.inMaker maker c.vars) =
        .ok w s₁ ∧ t = s₁.bind (s.makerLocals maker) d.name w := by
  rw [make_eq _ _ hscript hbody]
  cases hplaced : Stmt.misplacedIn? .function (Maker.decorated span at_ spanName d) with
  | some what =>
    constructor
    · rintro ⟨⟩
    · rintro ⟨⟨⟩, -⟩
  | none =>
    have hget : (s.withMaker maker).getFunction? ⟨s.functions.size⟩ = some maker := by
      rw [s.getFunction?_withMaker, if_pos rfl]
    dsimp only
    rw [Specialize.ofRun_eq_ok, ← hmaker, callIn_function host fuel m hget]
    split
    · next hdepth =>
      constructor
      · rintro ⟨⟩
      · rintro ⟨-, hlt, -⟩
        exact absurd hlt (Nat.not_lt.2 hdepth)
    · next hdepth =>
      rw [callBody_decorated (callIn_confined hhost fuel m.deeper) fuel hmaker]
      constructor
      · exact fun h => ⟨rfl, Nat.not_le.1 hdepth, h⟩
      · exact fun h => h.2.2

/-- A function without decorators is made anew once the defaults of its parameters have values. -/
theorem make_eq_ok (hc : c.unrollings = []) (hd : d.decorators = [])
    (hbody : c.script.DefinesMaker c.vars.keys makerSpan (Maker.body span at_ spanName d))
    {maker : Function}
    (hmaker : maker = c.script.maker c.function.globals c.vars.keys makerSpan
      (Maker.body span at_ spanName d)) :
    c.make (callIn host (fuel + 1) m) rounds s = .ok w t ↔
      Stmt.misplacedIn? .function (Maker.body span at_ spanName d) = none ∧
      m.depth < Machine.maxDepth ∧
      ∃ params s₁, evalParams (callIn host fuel m.deeper)
          (c.script.makerFrame c.function.globals (s.makerLocals maker)) d.params
          (s.inMaker maker c.vars) = .ok params s₁ ∧
        w = .function ⟨s₁.functions.size⟩ ∧
        t = s₁.withFunction
          (c.script.remade c.function.globals (s.makerLocals maker) span d params s₁)
          (s.makerLocals maker) := by
  rw [← Maker.decorated_eq_body hd] at hbody hmaker ⊢
  rw [make_decorated hhost (unrolled_eq_script hc) hbody hmaker]
  refine and_congr_right fun _ => and_congr_right fun _ => ?_
  constructor
  · rintro ⟨s₂, hdefine, rfl⟩
    obtain ⟨params, s₁, hparams, rfl, rfl⟩ := (define_eq_ok hd _).1 hdefine
    exact ⟨params, s₁, hparams, rfl, rfl⟩
  · rintro ⟨params, s₁, hparams, rfl, rfl⟩
    exact ⟨_, (define_eq_ok hd _).2 ⟨params, s₁, hparams, rfl, rfl⟩, rfl⟩

end Closure

/-! ## What the function captures -/

/-- While the defaults are evaluated the names of the maker stay bound as they are, so the function
captures the values of those that it needs from outside. -/
theorem Script.get?_captured_remade (hcall : call.Confined) {maker : Function} {vars : Table Value}
    {params : List (Param Value)} {s₁ : Store}
    (h : evalParams call (script.makerFrame globals (s.makerLocals maker)) d.params
      (s.inMaker maker vars) = .ok params s₁) (x : String) :
    (script.remade globals (s.makerLocals maker) span d params s₁).captured.get? x =
      if x ∈ d.freeNames then vars.get? x else none := by
  have hconfined : Run.Confined (fun _ => False)
      (evalParams call (script.makerFrame globals (s.makerLocals maker)) d.params) :=
    evalParams_confined hcall _ _
  have hkept := (hconfined.extends_of_ok h).bindings _ (s.makerLocals_lt maker vars) id
  change ((script.makerFrame globals (s.makerLocals maker)).capture s₁ d.freeNames).get? x = _
  rw [Frame.get?_capture]
  change (if x ∈ d.freeNames then (s₁.bindings (s.makerLocals maker)).get? x <|> none else none) = _
  rw [hkept, s.bindings_inMaker]
  split
  · cases vars.get? x <;> rfl
  · rfl

/-- The function that has been made is found in the store. -/
theorem Store.getFunction?_withFunction (s : Store) (g : Function) (locals : NamespaceRef) :
    (s.withFunction g locals).getFunction? ⟨s.functions.size⟩ = some g := by
  simp [Store.withFunction, Store.bind, Store.modifyBindings, Store.newFunction, Store.getFunction?]

/-- A function captures exactly the values that have been chosen for the names that it needs from
outside: those that are given for them, fixed as they are in the store, or else those that another
function has captured.  The name that unrolling goes by stands for the value that changes
nothing. -/
structure Function.Chosen (s : Store) (given : Table Value) (f g : Function) : Prop where
  /-- No other names are captured. -/
  free : ∀ x ∉ g.definition.freeNames, g.captured.get? x = none
  unroll : unrollName ∈ g.definition.freeNames →
    ∃ i, g.captured.get? unrollName = some (.native i .passing [])
  fixed : ∀ x v, x ∈ g.definition.freeNames → x ≠ unrollName → given.get? x = some v →
    ∃ w, v.FixedTo s w ∧ g.captured.get? x = some w
  kept : ∀ x ∈ g.definition.freeNames, x ≠ unrollName → given.get? x = none →
    g.captured.get? x = f.captured.get? x

/-- The values of a closure are those that are chosen. -/
theorem Closure.chosen_of_ofFunction {v : Value} {given : Table Value} {c : Closure}
    (hc : ofFunction v given s = .ok c t) {g : Function}
    (hg : ∀ x, g.captured.get? x = if x ∈ g.definition.freeNames then c.vars.get? x else none) :
    Function.Chosen s given c.function g := by
  obtain ⟨entries, passing, s₁, hentries, hpassing, hvars⟩ := vars_of_ofFunction hc
  obtain ⟨-, hfixed⟩ := fixedTo_of_fixedAll hentries
  have hkeys := keys_fixedAll hentries
  have hnodup : (Entries.keys entries).Nodup := by
    rw [hkeys]
    exact given.nodup.filter _
  refine ⟨fun x hx => by rw [hg, if_neg hx], fun hx => ?_, fun x v hx hne hv => ?_,
    fun x hx hne hv => ?_⟩
  · obtain ⟨i, rfl⟩ := hpassing
    exact ⟨i, by rw [hg, if_pos hx, hvars, get?_vars, if_pos rfl]⟩
  · obtain ⟨w, hw, hmem⟩ := hfixed x v hne (Table.mem_of_get? hv)
    refine ⟨w, hw, ?_⟩
    have hget : (Table.ofList entries).get? x = some w := by
      rw [← Table.entries_ofList hnodup] at hmem
      exact Table.get?_of_mem hmem
    rw [hg, if_pos hx, hvars, get?_vars, if_neg hne, hget]
    rfl
  · have hget : (Table.ofList entries).get? x = none := by
      rw [Table.get?_eq_none_iff, Table.keys, Table.entries_ofList hnodup, hkeys]
      exact fun hmem => Table.get?_eq_none_iff.1 hv (List.mem_filter.1 hmem).1
    rw [hg, if_pos hx, hvars, get?_vars, if_neg hne, hget]
    rfl

end StagedScript
