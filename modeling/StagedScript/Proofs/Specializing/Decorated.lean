import StagedScript.Proofs.Specializing.Made
import StagedScript.Proofs.Specializing.Stable
import StagedScript.Proofs.Spans

/-!
# Definitions with decorators

The decorators of a definition are evaluated in their order and called in the opposite one, each of
them once.  If one of them unrolls, the function that it is given is made anew, and then the maker
executes a definition with decorators again.  There the name that unrolling goes by stands for what
changes nothing, so the others are called a second time, but nothing is unrolled twice.
-/

namespace StagedScript

open Run

/-! ## Calling decorators -/

/-- Values are called one after the other, the last one first, each of them once and with what is
there then.  Values go together with the stores that they are given in. -/
inductive Run.Decorates (call : Caller) : List Value → Value × Store → Value × Store → Prop
  | nil (p : Value × Store) : Decorates call [] p p
  | cons {d : Value} {ds : List Value} {p q r : Value × Store} : Decorates call ds p q →
      call d (.ofList [q.1]) q.2 = .ok r.1 r.2 → Decorates call (d :: ds) p r

theorem Run.decorate_eq_ok {call : Caller} {ds : List Value} {v w : Value} {s t : Store} :
    decorate call ds v s = .ok w t ↔ Decorates call ds (v, s) (w, t) := by
  induction ds generalizing w t with
  | nil =>
    constructor
    · rintro ⟨⟩
      exact .nil _
    · rintro ⟨⟩
      rfl
  | cons d ds ih =>
    have hcons : decorate call (d :: ds) v =
        (do call d (.ofList [← decorate call ds v]) : Run Value) := by
      simp only [decorate, List.reverse_cons, List.foldlM_append, List.foldlM_cons,
        List.foldlM_nil, bind_pure]
    rw [hcons, EStateM.bind_eq_ok]
    constructor
    · rintro ⟨v', s', hds, hcall⟩
      exact .cons (ih.1 hds) hcall
    · rintro (_ | ⟨hds, hcall⟩)
      exact ⟨_, _, ih.2 hds, hcall⟩

theorem Run.decorates_append {call : Caller} {ds es : List Value} {p r : Value × Store} :
    Decorates call (ds ++ es) p r ↔ ∃ q, Decorates call es p q ∧ Decorates call ds q r := by
  induction ds generalizing r with
  | nil =>
    constructor
    · exact fun h => ⟨r, h, .nil r⟩
    · rintro ⟨q, hes, ⟨⟩⟩
      exact hes
  | cons d ds ih =>
    constructor
    · rintro (_ | ⟨hrest, hcall⟩)
      obtain ⟨q, hes, hds⟩ := ih.1 hrest
      exact ⟨q, hes, .cons hds hcall⟩
    · rintro ⟨q, hes, _ | ⟨hds, hcall⟩⟩
      exact .cons (ih.2 ⟨q, hes, hds⟩) hcall

/-! ## Executing a definition -/

/-- The function that a definition makes in a frame, and the store with it. -/
def Frame.made (f : Frame) (span : Span) (d : Definition) (params : List (Param Value))
    (s : Store) :
    Value × Store :=
  (.function ⟨s.functions.size⟩,
    (s.newFunction ⟨d.name, d, params, f.globals, f.capture s d.freeNames, f.origin span⟩).2)

/-- How a definition is executed, one decorator of which is looked at.  First all of them are
evaluated, then the defaults.  The inner ones are called one after the other, and what they give is
given to the one that is looked at; what this gives is given to the outer ones in the same way. -/
structure Run.Decoration (call : Caller) (f : Frame) (span : Span) (d : Definition) (s : Store)
    (outer : List Value) (u : Value) (inner : List Value) (p q r : Value × Store) : Prop where
  inner : ∃ s₁ params s₂, evalAll call f d.decorators s = .ok (outer ++ u :: inner) s₁ ∧
    evalParams call f d.params s₁ = .ok params s₂ ∧ Decorates call inner (f.made span d params s₂) p
  middle : call u (.ofList [p.1]) p.2 = .ok q.1 q.2
  outer : Decorates call outer q r

section

variable {call : Caller} {f : Frame}

theorem Run.evalAll_append {es es' : List Expr} {s t : Store} {vs : List Value} :
    evalAll call f (es ++ es') s = .ok vs t ↔ ∃ us s₁ ws, evalAll call f es s = .ok us s₁ ∧
      evalAll call f es' s₁ = .ok ws t ∧ vs = us ++ ws := by
  induction es generalizing s vs with
  | nil =>
    constructor
    · exact fun h => ⟨[], s, vs, rfl, h, rfl⟩
    · rintro ⟨us, s₁, ws, ⟨⟩, h, rfl⟩
      exact h
  | cons e es ih =>
    constructor
    · intro h
      obtain ⟨v, s₁, hv, h⟩ := EStateM.bind_eq_ok.1 h
      obtain ⟨rest, s₂, hrest, h⟩ := EStateM.bind_eq_ok.1 h
      cases h
      obtain ⟨us, s₃, ws, hus, hws, rfl⟩ := ih.1 hrest
      exact ⟨v :: us, s₃, ws, EStateM.bind_eq_ok.2 ⟨v, s₁, hv,
          EStateM.bind_eq_ok.2 ⟨us, s₃, hus, rfl⟩⟩, hws, rfl⟩
    · rintro ⟨us, s₃, ws, hus, hws, rfl⟩
      obtain ⟨v, s₁, hv, hus⟩ := EStateM.bind_eq_ok.1 hus
      obtain ⟨us', s₂, hus, h⟩ := EStateM.bind_eq_ok.1 hus
      cases h
      exact EStateM.bind_eq_ok.2
        ⟨v, s₁, hv, EStateM.bind_eq_ok.2 ⟨us' ++ ws, t, ih.2 ⟨us', s₃, ws, hus, hws, rfl⟩, rfl⟩⟩

theorem Run.length_of_evalAll {es : List Expr} {s t : Store} {vs : List Value}
    (h : evalAll call f es s = .ok vs t) : vs.length = es.length := by
  induction es generalizing s vs with
  | nil =>
    cases h
    rfl
  | cons e es ih =>
    obtain ⟨v, s₁, -, h⟩ := EStateM.bind_eq_ok.1 h
    obtain ⟨rest, s₂, hrest, h⟩ := EStateM.bind_eq_ok.1 h
    cases h
    exact congrArg (· + 1) (ih hrest)

/-- A definition calls each of its decorators once.  This is how, for one among them. -/
theorem Run.exists_decoration {span : Span} {d : Definition} {s t : Store} {w : Value}
    {es es' : List Expr} {e : Expr} (hd : d.decorators = es ++ e :: es')
    (h : define call f span d s = .ok w t) :
    ∃ outer s₁ u s₂ inner p q, evalAll call f es s = .ok outer s₁ ∧ eval call f e s₁ = .ok u s₂ ∧
      outer.length = es.length ∧ inner.length = es'.length ∧
      Decoration call f span d s outer u inner p q (w, t) := by
  obtain ⟨ds, s', hds, h⟩ := EStateM.bind_eq_ok.1 h
  obtain ⟨params, s'', hparams, h⟩ := EStateM.bind_eq_ok.1 h
  obtain ⟨captured, _, hview, h⟩ := EStateM.bind_eq_ok.1 h
  cases hview
  obtain ⟨r, _, hmade, h⟩ := EStateM.bind_eq_ok.1 h
  cases hmade
  have hall := decorate_eq_ok.1 h
  obtain ⟨outer, s₁, us, houter, hus, rfl⟩ := evalAll_append.1 (hd ▸ hds)
  obtain ⟨u, s₂, hu, hus⟩ := EStateM.bind_eq_ok.1 hus
  obtain ⟨inner, s₃, hinner, hus⟩ := EStateM.bind_eq_ok.1 hus
  cases hus
  obtain ⟨q, hrest, hout⟩ := decorates_append.1 hall
  obtain _ | ⟨hin, hcall⟩ := hrest
  exact ⟨outer, s₁, u, s₂, inner, _, q, houter, hu, length_of_evalAll houter,
    length_of_evalAll hinner, ⟨_, params, _, hds, hparams, hin⟩, hcall, hout⟩

end

/-! ## The name that unrolling goes by -/

/-- A frame finds the same values as long as no bindings change. -/
theorem Frame.find?_of_extends {f : Frame} {s t : Store}
    (hlocals : f.locals.index < s.namespaces.size) (hglobals : f.globals.index < s.namespaces.size)
    (h : s.Extends (fun _ => False) t) (x : String) :
    f.find? t x = f.find? s x := by
  unfold Frame.find?
  rw [h.bindings _ hlocals id, h.bindings _ hglobals id]

section

variable {host : Host} {fuel rounds : Nat} {m : Machine} {f : Frame} {s t : Store} {v : Value}
  {i : Nat} {held : List (String × Value)}

/-- Calling a native callable by its name calls it with the values of the arguments. -/
theorem Run.native_of_eval_call {kind : Native} {span nameSpan : Span} {x : String}
    {args : List (Arg Expr)} (hx : f.find? s x = some (.native i kind held))
    (h : eval (callIn host fuel m) f (.call span (.name nameSpan x) args) s = .ok v t) :
    ∃ n given s₁, fuel = n + 1 ∧ kind.call host (callIn host n m) n held given s₁ = .ok v t := by
  have h : (lookup f x >>= fun callee => evalArgs (callIn host fuel m) f (.ofList []) args >>=
      callIn host fuel m callee) s = .ok v t := h
  rw [lookup_bind hx] at h
  obtain ⟨given, s₁, -, h⟩ := EStateM.bind_eq_ok.1 h
  cases fuel with
  | zero => cases h
  | succ n => exact ⟨n, given, s₁, rfl, h⟩

/-- What asks for unrolling gives the callable that unrolls over the arguments by name. -/
theorem Native.unrolling_gives {call : Caller} {given : Arguments}
    (h : Native.call host call rounds .unrolling held given s = .ok v t) :
    ∃ k, v = .native k .unroller given.named.entries := by
  unfold Native.call at h
  cases hplaces : given.positional with
  | nil =>
    rw [hplaces] at h
    cases h
    exact ⟨_, rfl⟩
  | cons a as =>
    rw [hplaces] at h
    cases h

/-- What stands for it in a maker gives a callable that gives back what it is called with. -/
theorem Native.passing_gives {call : Caller} {given : Arguments}
    (h : Native.call host call rounds .passing held given s = .ok v t) :
    ∃ k, v = .native k .passer [] := by
  unfold Native.call at h
  cases hplaces : given.positional with
  | nil =>
    rw [hplaces] at h
    cases h
    exact ⟨_, rfl⟩
  | cons a as =>
    rw [hplaces] at h
    cases h

/-- Calling such a callable changes nothing. -/
theorem passer_eq_ok {p q : Value × Store}
    (h : callIn host fuel m (.native i .passer held) (.ofList [p.1]) p.2 = .ok q.1 q.2) :
    q = p := by
  cases fuel with
  | zero => cases h
  | succ n =>
    change EStateM.Result.ok p.1 p.2 = .ok q.1 q.2 at h
    injection h with hvalue hstore
    exact (Prod.ext hvalue hstore).symm

/-- Calling what unrolls makes the function anew, once. -/
theorem unroller_eq_ok {w : Value}
    (h : callIn host (fuel + 1) m (.native i .unroller held) (.ofList [v]) s = .ok w t) :
    unrollOver (callIn host fuel m) fuel (.ofList held) v s = .ok w t ∧
      ∃ c u known, Closure.ofFunction v (.ofList held) s = .ok c u ∧
        (c.unrolling known).make (callIn host fuel m) fuel u = .ok w t := by
  have hunroll : unrollOver (callIn host fuel m) fuel (.ofList held) v s = .ok w t :=
    Unroll.toRun_eq_ok.1 h
  refine ⟨hunroll, ?_⟩
  obtain ⟨c, u, hc, hunroll⟩ := EStateM.bind_eq_ok.1 hunroll
  obtain ⟨_, _, hget, hmake⟩ := EStateM.bind_eq_ok.1 hunroll
  cases hget
  exact ⟨c, u, _, hc, hmake⟩

end

/-- The decorator stands for a call of what the name stands for. -/
def Expr.CallsUnroll (e : Expr) : Prop :=
  ∃ span nameSpan args, e = .call span (.name nameSpan unrollName) args

theorem Expr.mapSpans_eq_map (g : Span → Span) (es : List Expr) :
    mapSpans g es = es.map (mapSpan g) := by
  induction es with
  | nil => rfl
  | cons e es ih => rw [mapSpans, ih, List.map_cons]

/-- Definitions that differ in their spans alone have decorators that ask for unrolling at the same
place. -/
theorem Definition.decorators_of_bare {d d' : Definition} (h : d'.bare = d.bare)
    {es es' : List Expr} {e : Expr} (hd : d.decorators = es ++ e :: es') (he : e.CallsUnroll) :
    ∃ fs g fs', d'.decorators = fs ++ g :: fs' ∧ g.CallsUnroll ∧ fs.length = es.length ∧
      fs'.length = es'.length := by
  obtain ⟨span, nameSpan, args, rfl⟩ := he
  have hmap := congrArg Definition.decorators h
  simp only [Definition.bare, Definition.mapSpan, Expr.mapSpans_eq_map, hd, List.map_append,
    List.map_cons] at hmap
  obtain ⟨fs, rest, hd', hfs, hrest⟩ := List.map_eq_append_iff.1 hmap
  obtain ⟨g, fs', rfl, hg, hfs'⟩ := List.map_eq_cons_iff.1 hrest
  refine ⟨fs, g, fs', hd', ?_, ?_, ?_⟩
  · cases g with
    | call span' callee args' =>
      cases callee with
      | name nameSpan' x =>
        injection hg with _ hname
        injection hname with _ hx
        exact ⟨span', nameSpan', args', by rw [hx]⟩
      | _ =>
        injection hg with _ hname
        cases hname
    | _ => cases hg
  · simpa using congrArg List.length hfs
  · simpa using congrArg List.length hfs'

/-! ## Unrolling among other decorators -/

/-- The maker of a closure executes a definition with decorators.  Each of them is called once, so
many in front of one that changes nothing and so many behind it, and the value at the end is what
the maker gives. -/
def Closure.Redecorates (call : Caller) (c : Closure) (span : Span) (d : Definition)
    (outer inner : Nat) (q : Value × Store) : Prop :=
  ∃ locals s os j is p t, s.bindings locals = c.vars ∧ os.length = outer ∧ is.length = inner ∧
    Decoration call (c.script.makerFrame c.function.globals locals) span d s os
    (.native j .passer []) is
      p p (q.1, t) ∧ q.2 = t.bind locals d.name q.1

section

variable {host : Host} (hhost : host.Confined) {fuel : Nat} {m : Machine} {s t : Store} {w : Value}
include hhost

/-- When a function is made anew from a definition with decorators, the name that unrolling goes by
stands for what changes nothing. -/
theorem Closure.make_redecorates {v : Value} {given : Table Value} {c : Closure} {s₁ : Store}
    (hc : ofFunction v given s₁ = .ok c s) {makerSpan span at_ spanName : Span} {d : Definition}
    (hbody : c.script.DefinesMaker c.vars.keys makerSpan (Maker.decorated span at_ spanName d))
    {es es' : List Expr} {e : Expr} (hd : d.decorators = es ++ e :: es') (he : e.CallsUnroll)
    {known : Table Extent} {rounds : Nat}
    (h : (c.unrolling known).make (callIn host fuel m) rounds s = .ok (w : Value) t) :
    ∃ n b, fuel = n + 1 ∧ Unroll.stmts known d.body = .ok b ∧
      c.Redecorates (callIn host n m.deeper) span { d with body := b } es.length es'.length
        (w, t) := by
  obtain ⟨_, _, hwritten⟩ := written_of_ofFunction hc
  obtain ⟨script, _, hscript, -⟩ := EStateM.bind_eq_ok.1 h
  have hscript := (Specialize.ofExcept_eq_ok.1 hscript).1
  obtain ⟨b₀, hb₀, rfl⟩ := unrolled_unrolling hwritten.unrollings hscript
  -- Nothing but the body of the definition changes when its loops are unrolled.
  obtain ⟨b, hb, rfl⟩ : ∃ b, Unroll.stmts known d.body = .ok b ∧ b₀ =
      [.define makerSpan SpecializeError.makerName [] (Param.plain Expr c.vars.keys)
        (Maker.decorated span at_ spanName { d with body := b })] := by
    rw [hbody] at hb₀
    obtain ⟨front, hfront, hb₀⟩ := Except.bind_eq_ok.1 hb₀
    obtain ⟨rest, hrest, hb₀⟩ := Except.bind_eq_ok.1 hb₀
    cases hrest
    cases hb₀
    obtain ⟨inside, hinside, hfront⟩ := Except.bind_eq_ok.1 hfront
    cases hfront
    obtain ⟨first, hfirst, hinside⟩ := Except.bind_eq_ok.1 hinside
    obtain ⟨last, hlast, hinside⟩ := Except.bind_eq_ok.1 hinside
    cases hlast
    cases hinside
    obtain ⟨b, hb, hfirst⟩ := Except.bind_eq_ok.1 hfirst
    cases hfirst
    exact ⟨b, hb, rfl⟩
  cases fuel with
  | zero =>
    rw [make_eq _ _ hscript rfl] at h
    split at h
    · cases h
    · cases h
  | succ n =>
    obtain ⟨maker, hmaker⟩ : ∃ maker, maker =
      c.script.maker c.function.globals c.vars.keys makerSpan (Maker.decorated span at_ spanName
        { d with body := b }) := ⟨_, rfl⟩
    let d' : Definition := { d with body := b }
    let frame := c.script.makerFrame c.function.globals (s.makerLocals maker)
    obtain ⟨-, -, t', hdefine, rfl⟩ : _ ∧ _ ∧ ∃ t', define (callIn host n m.deeper) frame span d'
        (s.inMaker maker c.vars) = .ok w t' ∧ t = t'.bind (s.makerLocals maker) d.name w :=
      (make_decorated hhost hscript rfl hmaker).1 h
    have hd' : d'.decorators = es ++ e :: es' := hd
    obtain ⟨outer, s₂, u, s₃, inner, p, q, houter, hu, hlength, hlength', hdecoration⟩ :=
      exists_decoration hd' hdefine
    -- The name is still bound as it was when the maker was called.
    have hconfined : Run.Confined (fun _ => False) (evalAll (callIn host n m.deeper) frame es) :=
      evalAll_confined (callIn_confined hhost n m.deeper) frame es
    have hkept := (hconfined.extends_of_ok houter).bindings _ (s.makerLocals_lt maker c.vars) id
    obtain ⟨given, passing, s₄, -, ⟨i, rfl⟩, hvars⟩ := vars_of_ofFunction hc
    have hfind : frame.find? s₂ unrollName = some (.native i .passing []) := by
      have hpassing : c.vars.get? unrollName = some (.native i .passing []) := by
        rw [hvars, get?_vars, if_pos rfl]
      unfold Frame.find?
      rw [show frame.locals = s.makerLocals maker from rfl, hkept, s.bindings_inMaker, hpassing]
      rfl
    obtain ⟨callSpan, nameSpan, args, rfl⟩ := he
    obtain ⟨n', given, s₅, rfl, hgives⟩ := native_of_eval_call hfind hu
    obtain ⟨j, rfl⟩ := Native.passing_gives hgives
    obtain rfl := passer_eq_ok hdecoration.middle
    exact ⟨_, b, rfl, hb, s.makerLocals maker, _, outer, j, inner, q, t', s.bindings_inMaker _ _,
      hlength, hlength', hdecoration, rfl⟩

/-- A decorator that unrolls does not unroll again.  If one of the decorators of a definition is a
call of what asks for unrolling, by its name, each execution of the definition performs one
unrolling for it, and calls each of the others once.  The unrolling makes a function anew; if its
maker has been read as the same definition, then each of the other decorators is called once more
there, but nothing is unrolled. -/
theorem Run.define_unrolls_once {f : Frame} {span : Span} {d : Definition} {es es' : List Expr}
    {e : Expr} (hlocals : f.locals.index < s.namespaces.size)
    (hglobals : f.globals.index < s.namespaces.size) (hd : d.decorators = es ++ e :: es')
    (he : e.CallsUnroll) {i : Nat} {held : List (String × Value)}
    (hunroll : f.find? s unrollName = some (.native i .unrolling held)) {rounds : Nat} {flow : Flow}
    (h : exec (callIn host fuel m) rounds f
      (.define span d.name d.decorators d.params d.body) s = .ok flow t) :
    ∃ n k names os is p q r c u, fuel = n + 1 ∧ os.length = es.length ∧ is.length = es'.length ∧
      Decoration (callIn host fuel m) f span d s os (.native k .unroller names) is p q r ∧
      t = r.2.bind f.locals d.name r.1 ∧
      unrollOver (callIn host n m) n (.ofList names) p.1 p.2 = .ok q.1 q.2 ∧
      Closure.ofFunction p.1 (.ofList names) p.2 = .ok c u ∧
      ∀ {makerSpan span' at_ spanName : Span} {d' : Definition}, d'.bare = d.bare →
        c.script.DefinesMaker c.vars.keys makerSpan (Maker.decorated span' at_ spanName d') →
        ∃ n' known b, n = n' + 1 ∧ Unroll.stmts known d'.body = .ok b ∧
          c.Redecorates (callIn host n' m.deeper) span' { d' with body := b } es.length
            es'.length q := by
  unfold exec at h
  obtain ⟨w, t', hdefine, h⟩ := EStateM.bind_eq_ok.1 h
  cases h
  obtain ⟨os, s₁, v, s₂, is, p, q, hos, hv, hlength, hlength', hdecoration⟩ :=
    exists_decoration hd hdefine
  have hconfined : Run.Confined (fun _ => False) (evalAll (callIn host fuel m) f es) :=
    evalAll_confined (callIn_confined hhost fuel m) f es
  have hfind := Frame.find?_of_extends hlocals hglobals (hconfined.extends_of_ok hos) unrollName
  obtain ⟨callSpan, nameSpan, args, rfl⟩ := he
  obtain ⟨n, given, s₃, rfl, hgives⟩ := native_of_eval_call (hfind.trans hunroll) hv
  obtain ⟨k, rfl⟩ := Native.unrolling_gives hgives
  obtain ⟨hunrolled, c, u, known, hc, hmake⟩ := unroller_eq_ok hdecoration.middle
  refine ⟨n, k, _, os, is, p, q, _, c, u, rfl, hlength, hlength', hdecoration, rfl,
    hunrolled, hc, ?_⟩
  intro makerSpan span' at_ spanName d' hbare hbody
  obtain ⟨fs, g, fs', hd', hg, hfs, hfs'⟩ :=
    Definition.decorators_of_bare hbare hd ⟨callSpan, nameSpan, args, rfl⟩
  obtain ⟨n', b, rfl, hb, hagain⟩ := Closure.make_redecorates hhost hc hbody hd' hg hmake
  rw [hfs, hfs'] at hagain
  exact ⟨n', known, b, rfl, hb, hagain⟩

end

section Sample

/-- A decorator that prints whenever it is called. -/
def sampleNote : String := "def note(f):\n    print('called')\n    return f\n"

/-- A definition with that decorator alone. -/
def sampleNoted : String := "@note\ndef g():\n    return 0\n"

/-- The definition with that decorator and one that unrolls. -/
def sampleMarked : String := "@note\n@unroll(xs=(1, 2))\ndef g():\n    return 0\n"

/-- What is read from the last text. -/
def Stmt.isSampleMarked : Stmt → Bool
  | .define _ "g"
      [.name _ "note", .call _ (.name _ "unroll")
        [⟨.keyword "xs", .tuple _ [.int _ a, .int _ b]⟩]]
      [] [.ret _ (some (.int _ c))] => a == 1 && b == 2 && c == 0
  | _ => false

/-- The definition that has been read, with its spans forgotten. -/
def sampleMarkedBare : Definition where
  name := "g"
  decorators := [.name ⟨0, 0⟩ "note", .call ⟨0, 0⟩ (.name ⟨0, 0⟩ "unroll")
    [⟨.keyword "xs", .tuple ⟨0, 0⟩ [.int ⟨0, 0⟩ 1, .int ⟨0, 0⟩ 2]⟩]]
  params := []
  body := [.ret ⟨0, 0⟩ (some (.int ⟨0, 0⟩ 0))]

theorem Stmt.eq_of_isSampleMarked {stmt : Stmt} (h : stmt.isSampleMarked = true) :
    ∃ span nameSpan e,
    ∃ d : Definition, stmt = .define span d.name d.decorators d.params d.body ∧
    d.bare = sampleMarkedBare ∧
      d.decorators = [.name nameSpan "note"] ++ e :: [] ∧ e.CallsUnroll := by
  unfold isSampleMarked at h
  split at h
  · next span nameSpan callSpan unrollSpan tupleSpan aSpan a bSpan b retSpan cSpan c =>
    simp only [Bool.and_eq_true, beq_iff_eq] at h
    obtain ⟨⟨rfl, rfl⟩, rfl⟩ := h
    exact ⟨span, nameSpan, _, ⟨_, _, _, _⟩, rfl, rfl, rfl, callSpan, unrollSpan, _, rfl⟩
  · cases h

/-- The store of a host that has made the callable that asks for unrolling. -/
def Store.installed : Store :=
  { Store.empty with
    namespaces := #[.ofList [(unrollName, .native 0 .unrolling [])]]
    nextIdentity := 1 }

/-- The store behind the program of a text that is executed in another one. -/
def Store.executed (s : Store) (text : String) : Store :=
  match Program.ofText text "sample" with
  | .ok p => .after (p.run .probe 5 .captured ⟨0⟩ none s)
  | .error _ => s

/-- The function that a definition in a frame makes is put into a maker, as the last of its
decorators does if this one unrolls. -/
def sampleRemaking (f : Frame) (span : Span) (d : Definition) : Specialize Closure := do
  let ds ← Specialize.ofRun (evalAll (callIn .probe 5 .captured) f d.decorators)
  let params ← Specialize.ofRun (evalParams (callIn .probe 5 .captured) f d.params)
  let s ← get
  set (f.made span d params s).2
  match ds.getLast? with
  | some (.native _ .unroller names) =>
      Closure.ofFunction (f.made span d params s).1 (.ofList names)
  | _ => throw .noMaker

/-- Whether the maker of a closure has been read as the definition of the sample. -/
def Closure.isSampleMarked (c : Closure) : Bool :=
  match c.script.body with
  | [.define _ _ _ _ [stmt, .ret _ (some (.name _ "g"))]] => stmt.isSampleMarked
  | _ => false

/-- The frame of a script whose names are bound in the first namespace. -/
def Script.sampleFrame (script : Script) : Frame :=
  ⟨⟨0⟩, ⟨0⟩, none, script.source, script.lineOffset⟩

/-- Whether a name stands for what asks for unrolling. -/
def Option.asksUnrolling : Option Value → Bool
  | some (.native _ .unrolling _) => true
  | _ => false

/-- Tests that the sample is read, executed, and read again from a maker, as one definition. -/
def sampleMarkedTrial (s : Store) : Bool :=
  match Script.parse sampleMarked "sample" with
  | .error _ => false
  | .ok script =>
    match script.body with
    | [.define span name ds ps b] => (Stmt.define span name ds ps b).isSampleMarked &&
        decide (0 < s.namespaces.size) && Option.asksUnrolling
          (script.sampleFrame.find? s unrollName) &&
        ((exec (callIn .probe 5 .captured) 5 script.sampleFrame (.define span name ds ps b)).run'
          s).isSome &&
        ((sampleRemaking script.sampleFrame span ⟨name, ds, ps, b⟩).run' s).any
          Closure.isSampleMarked
    | _ => false

theorem sampleRemaking_eq_ok {f : Frame} {span : Span} {d : Definition} {s u : Store} {c : Closure}
    (h : sampleRemaking f span d s = .ok c u) : ∃ ds s₁ params s₂ k names,
      evalAll (callIn .probe 5 .captured) f d.decorators s = .ok ds s₁ ∧
      evalParams (callIn .probe 5 .captured) f d.params s₁ = .ok params s₂ ∧
      ds.getLast? = some (.native k .unroller names) ∧
      Closure.ofFunction (f.made span d params s₂).1 (.ofList names) (f.made span d params s₂).2 =
        .ok c u := by
  obtain ⟨ds, s₁, hds, h⟩ := EStateM.bind_eq_ok.1 h
  obtain ⟨params, s₂, hparams, h⟩ := EStateM.bind_eq_ok.1 h
  obtain ⟨_, _, hget, h⟩ := EStateM.bind_eq_ok.1 h
  cases hget
  obtain ⟨_, _, hset, h⟩ := EStateM.bind_eq_ok.1 h
  cases hset
  have hds := Specialize.ofRun_eq_ok.1 hds
  have hparams := Specialize.ofRun_eq_ok.1 hparams
  cases hlast : ds.getLast? with
  | none =>
    rw [hlast] at h
    cases h
  | some v =>
    rw [hlast] at h
    cases v with
    | native k kind names =>
      cases kind with
      | unroller => exact ⟨ds, s₁, params, s₂, k, names, hds, hparams, hlast, h⟩
      | _ => cases h
    | _ => cases h

/-- The sample is read as a definition with two decorators, the second of which asks for unrolling.
It can be executed, and its maker is read as the same definition. -/
theorem sampleMarked_read : ∃ script span nameSpan e i held flow t c u, ∃ d : Definition,
    Script.parse sampleMarked "sample" = .ok script ∧
    script.body = [.define span d.name d.decorators d.params d.body] ∧ d.bare = sampleMarkedBare ∧
    d.decorators = [.name nameSpan "note"] ++ e :: [] ∧ e.CallsUnroll ∧
    0 < (Store.installed.executed sampleNote).namespaces.size ∧
    script.sampleFrame.find? (Store.installed.executed sampleNote) unrollName =
      some (.native i .unrolling held) ∧
    exec (callIn .probe 5 .captured) 5 script.sampleFrame
      (.define span d.name d.decorators d.params d.body) (Store.installed.executed sampleNote) =
        .ok flow t ∧
    sampleRemaking script.sampleFrame span d (Store.installed.executed sampleNote) = .ok c u ∧
    c.isSampleMarked = true := by
  have htrial : sampleMarkedTrial (Store.installed.executed sampleNote) = true := by decide +kernel
  unfold sampleMarkedTrial at htrial
  split at htrial
  · cases htrial
  · next script hparse =>
    split at htrial
    · next span name ds ps b hbody =>
      simp only [Bool.and_eq_true, decide_eq_true_eq] at htrial
      obtain ⟨⟨⟨⟨hmarked, hsize⟩, hasks⟩, hexec⟩, hremaking⟩ := htrial
      obtain ⟨span', nameSpan, e, d, heq, hbare, hd, he⟩ := Stmt.eq_of_isSampleMarked hmarked
      obtain ⟨rfl, rfl, rfl, rfl, rfl⟩ := Stmt.define.inj heq
      unfold EStateM.run' EStateM.run at hexec hremaking
      split at hexec
      · next flow t hrun =>
        split at hremaking
        · next c u hremade =>
          unfold Option.asksUnrolling at hasks
          split at hasks
          · next i held hfind =>
            exact ⟨script, span, nameSpan, e, i, held, flow, t, c, u, d, hparse, hbody, hbare,
              hd, he, hsize, hfind, hrun, hremade, hremaking⟩
          · cases hasks
        · cases hremaking
      · cases hexec
    · cases htrial

/-- A maker that has been read as the definition of the sample. -/
theorem Closure.definesMaker_of_isSampleMarked {c : Closure} (h : c.isSampleMarked = true)
    (hmaker : ∃ makerSpan body, c.script.DefinesMaker c.vars.keys makerSpan body) :
    ∃ makerSpan span at_ nameSpan, ∃ d : Definition, d.bare = sampleMarkedBare ∧
      c.script.DefinesMaker c.vars.keys makerSpan (Maker.decorated span at_ nameSpan d) := by
  obtain ⟨makerSpan, body, hbody⟩ := hmaker
  unfold isSampleMarked at h
  split at h
  · next _ _ _ _ stmt at_ nameSpan hshape =>
    obtain ⟨span, -, -, d, rfl, hbare, -, -⟩ := Stmt.eq_of_isSampleMarked h
    have hname : d.name = "g" := congrArg Definition.name hbare
    refine ⟨makerSpan, span, at_, nameSpan, d, hbare, ?_⟩
    rw [hbody] at hshape
    injection hshape with hdefine
    injection hdefine with _ _ _ _ hdecorated
    rw [Script.DefinesMaker, hbody, hdecorated, Maker.decorated, hname]
  · cases h

/-- In the sample one decorator that prints stands in front of the one that unrolls. -/
theorem sampleMarked_unrolls_once : ∃ script span nameSpan e i held flow t, ∃ d : Definition,
    Script.parse sampleMarked "sample" = .ok script ∧
    script.body = [.define span d.name d.decorators d.params d.body] ∧ Host.probe.Confined ∧
    script.sampleFrame.locals.index < (Store.installed.executed sampleNote).namespaces.size ∧
    script.sampleFrame.globals.index < (Store.installed.executed sampleNote).namespaces.size ∧
    d.decorators = [.name nameSpan "note"] ++ e :: [] ∧ e.CallsUnroll ∧
    script.sampleFrame.find? (Store.installed.executed sampleNote) unrollName =
      some (.native i .unrolling held) ∧
    exec (callIn .probe 5 .captured) 5 script.sampleFrame
      (.define span d.name d.decorators d.params d.body) (Store.installed.executed sampleNote) =
        .ok flow t ∧
    ∃ n k names os is p q r c u, 5 = n + 1 ∧ os.length = 1 ∧ is.length = 0 ∧
      Decoration (callIn .probe 5 .captured) script.sampleFrame span d
        (Store.installed.executed sampleNote) os (.native k .unroller names) is p q r ∧
      t = r.2.bind script.sampleFrame.locals d.name r.1 ∧
      unrollOver (callIn .probe n .captured) n (.ofList names) p.1 p.2 = .ok q.1 q.2 ∧
      Closure.ofFunction p.1 (.ofList names) p.2 = .ok c u ∧
      ∃ makerSpan span' at_ spanName n' known b, ∃ d' : Definition, d'.bare = d.bare ∧
        c.script.DefinesMaker c.vars.keys makerSpan (Maker.decorated span' at_ spanName d') ∧
        n = n' + 1 ∧
        Unroll.stmts known d'.body = .ok b ∧
        c.Redecorates (callIn .probe n' Machine.captured.deeper) span' { d' with body := b } 1 0
          q := by
  obtain ⟨script, span, nameSpan, e, i, held, flow, t, c', u', d, hparse, hbody, hbare, hd, he,
    hsize, hfind, hexec, hremade, hmarked⟩ := sampleMarked_read
  obtain ⟨n, k, names, os, is, p, q, r, c, u, hn, hos, his, hdecoration, ht, hunrolled,
    hc, hagain⟩ :=
    define_unrolls_once Host.parametric_probe.confined hsize hsize hd he hfind hexec
  obtain ⟨ds, s₁, params, s₂, k', names', hds, hparams, hlast, hc'⟩ := sampleRemaking_eq_ok hremade
  -- What the test has put into a maker is what the decorator is given.
  have hsame : c' = c := by
    obtain ⟨t₁, params', t₂, hall, hparams', hin⟩ := hdecoration.inner
    obtain rfl := List.length_eq_zero_iff.1 his
    rw [hds] at hall
    cases hall
    rw [hparams] at hparams'
    cases hparams'
    rw [List.getLast?_append_of_ne_nil _ (List.cons_ne_nil _ _)] at hlast
    cases hlast
    cases hin
    rw [hc'] at hc
    injection hc
  subst hsame
  have hmaker : ∃ makerSpan body, c'.script.DefinesMaker c'.vars.keys makerSpan body := by
    refine Closure.definesMaker_of_ofFunction (fun r f hr hf => ?_) hc'
    cases hr
    rw [Frame.made, Store.getFunction?, Store.newFunction, Array.getElem?_push_size] at hf
    cases hf
    have hname : d.name = "g" := congrArg Definition.name hbare
    have hvalid : Word.isName d.name = true := by
      rw [hname]
      decide
    exact ⟨hvalid, fun x hx => (List.not_mem_nil hx).elim⟩
  obtain ⟨makerSpan, span', at_, spanName, d', hbare', hdefines⟩ :=
    Closure.definesMaker_of_isSampleMarked hmarked hmaker
  have hdbare : d'.bare = d.bare := hbare'.trans hbare.symm
  obtain ⟨n', known, b, hn', hb, hre⟩ := hagain hdbare hdefines
  exact ⟨script, span, nameSpan, e, i, held, flow, t, d, hparse, hbody,
    Host.parametric_probe.confined, hsize, hsize, hd, he, hfind, hexec, n, k, names, os, is, p, q,
    r, c', u, hn, hos, his, hdecoration, ht, hunrolled, hc, makerSpan, span', at_, spanName, n',
    known, b, d', hdbare, hdefines, hn', hb, hre⟩

/-- The other decorator is called twice nevertheless.  It prints once where nothing is unrolled, and
twice where the function is made anew. -/
theorem sampleMarked_notes_twice : ∃ script span nameSpan e, ∃ d : Definition,
    Script.parse sampleMarked "sample" = .ok script ∧
    script.body = [.define span d.name d.decorators d.params d.body] ∧
    d.decorators = [.name nameSpan "note"] ++ e :: [] ∧ e.CallsUnroll ∧
    ((Store.installed.executed sampleNote).executed sampleNoted).captured = "called\n" ∧
    ((Store.installed.executed sampleNote).executed sampleMarked).captured =
      "called\ncalled\n" := by
  obtain ⟨script, span, nameSpan, e, -, -, -, -, -, -, d, hparse, hbody, -, hd, he, -⟩ :=
    sampleMarked_read
  exact ⟨script, span, nameSpan, e, d, hparse, hbody, hd, he, by decide +kernel, by decide +kernel⟩

end Sample

end StagedScript
