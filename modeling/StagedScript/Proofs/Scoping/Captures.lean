import Mathlib.Data.Fintype.EquivFin
import StagedScript.Proofs.Scoping.Unbound

/-!
# What nested functions see of the functions around

A function captures the values of the names that it needs from outside when its definition is
executed.  So what a name stands for in its body is settled then, if neither it nor a function
between binds the name: later assignments make no difference, and neither do the globals.
-/

namespace StagedScript

open Moment

/-! ## Calls -/

/-- The frame that the body of a called function is executed in. -/
def Function.start (g : Function) (args : Arguments) : Run Frame := do
  let locals ← Run.make (·.newNamespace (← Run.bindArguments g args))
  return ⟨locals, g.globals, some g.captured, g.origin.source, g.origin.lineOffset⟩

/-- The result of a call whose body ends so. -/
def Flow.result : Flow → Run Value
  | next => return .none_
  | ret v => return v
  | brk => Run.fail (.stray .brk)
  | cont => Run.fail (.stray .cont)

theorem Run.callBody_eq (call : Caller) (rounds : Nat) (g : Function) (args : Arguments) :
    callBody call rounds g args = (do
      let f ← g.start args
      Flow.result (← execAll call rounds f g.definition.body)) := by
  simp only [callBody, Function.start, bind_assoc, pure_bind]
  rfl

/-- The names that are bound in a call of a function. -/
def Function.bound (g : Function) : List String :=
  Param.names g.params ++ Stmt.bindsAll g.definition.body

/-- The moments of a call of a function. -/
def Moment.ofCall (call : Caller) (rounds : Nat) (g : Function) (args : Arguments) (s : Store) :
    List Moment :=
  after (g.start args) s fun f t => ofExecAll call rounds [] g.bound f g.definition.body t

/-- A call starts in a new namespace, in which the parameters are bound. -/
theorem Function.has_of_start {g : Function} {args : Arguments} {s t : Store} {f : Frame}
    (h : g.start args s = .ok f t) :
    f.captured? = some g.captured ∧ f.globals = g.globals ∧
      t.Has fun φ => φ.Unbound (· ∈ g.bound) f.locals := by
  obtain ⟨table, s₁, hargs, hnew⟩ := EStateM.bind_eq_ok.1 h
  obtain ⟨rfl, rfl⟩ : (⟨(s₁.newNamespace table).1, g.globals, some g.captured, g.origin.source,
      g.origin.lineOffset⟩ : Frame) = f ∧ (s₁.newNamespace table).2 = t := by
    cases hnew
    exact ⟨rfl, rfl⟩
  have hkeys : ∀ k ∈ table.keys, k ∈ Param.names g.params := by
    have hbind := Related.kinship.bindArguments (R := Store.BothHave fun _ => False)
      (g := g) ⟨fun _ _ v _ => v.avoids_nothing, fun e _ => e.2.avoids_nothing, id⟩
      args.avoids_nothing s s (Store.Has.both nofun)
    rw [hargs] at hbind
    cases hbind with
    | ok htable _ => exact htable.2.2
  refine ⟨rfl, rfl, fun φ hφ => ⟨?_, ?_⟩⟩
  · simp [hφ.place, Store.newNamespace]
  · have hnone : table.get? φ.name = none :=
      Table.get?_eq_none_iff.2 fun hx => hφ.name (List.mem_append_left _ (hkeys _ hx))
    simp [hφ.place, hφ.value, Store.newNamespace, Store.bindings, hnone]

/-- What is known of a moment of a call of a function. -/
structure Moment.InCall (g : Function) (m : Moment) : Prop where
  captured : m.frame.captured? = some g.captured
  globals : m.frame.globals = g.globals
  /-- Only names that are counted as bound are bound. -/
  unbound : ∀ x ∉ m.bound, (m.store.bindings m.frame.locals).get? x = none
  /-- The namespace that they are bound in is there. -/
  locals : m.frame.locals.index < m.store.namespaces.size
  /-- Outside of classes the names that the event is about are counted as read in the body. -/
  own : m.classes = [] → m.bound = g.bound ∧ m.event.names ⊆ Stmt.readsAll g.definition.body

theorem Moment.inCall {call : Caller} (hcall : call.Preserves) (rounds : Nat) {g : Function}
    {args : Arguments} {s : Store} : ∀ m ∈ ofCall call rounds g args s, m.InCall g := by
  refine forall_mem_after fun f t hstart m hm => ?_
  obtain ⟨hcaptured, hglobals, ht⟩ := Function.has_of_start hstart
  have hfree : f.Free (fun φ => φ.Unbound (· ∈ g.bound) f.locals)
      (Stmt.bindsAll g.definition.body) :=
    fun φ hφ _ hx => hφ.name (List.mem_append_right _ hx)
  have hm := ofExecAll_sound hcall rounds (fun _ hφ => hφ) g.definition.body hfree ht m hm
  have hunbound (x : String) (hx : x ∉ m.bound) : Fact.Holds m.store ⟨m.frame.locals, x, none⟩ :=
    hm.unbound _ ⟨rfl, rfl, hx⟩
  refine ⟨?_, ?_, fun x hx => (hunbound x hx).2, ?_, fun hclasses => ?_⟩
  · rw [hm.frame]
    exact hcaptured
  · rw [hm.frame]
    exact hglobals
  · -- There are always names that are not bound.
    obtain ⟨x, hx⟩ := Infinite.exists_notMem_finset m.bound.toFinset
    exact (hunbound x (by simpa using hx)).1
  · obtain ⟨-, hbound, -, hnames⟩ := hm.own hclasses
    exact ⟨hbound, hnames⟩

/-! ## Names from outside -/

namespace Moment.InCall

variable {g : Function} {m : Moment} (hm : m.InCall g) {x : String} (hx : x ∉ m.bound)
include hm hx

/-- A name that is not bound in the frame stands for what the function has captured, or for a global
or a builtin.  In the body of a class it does not stand for what the function itself has bound. -/
theorem find? : m.frame.find? m.store x =
    (g.captured.get? x <|> (m.store.bindings g.globals).get? x <|>
      (Builtin.visible? x).map .builtin) := by
  unfold Frame.find?
  rw [hm.unbound x hx, hm.captured, hm.globals]
  rfl

/-- The same holds for what a definition captures. -/
theorem get?_capture {names : List String} (hnames : x ∈ names) :
    (m.frame.capture m.store names).get? x = g.captured.get? x := by
  rw [Frame.get?_capture, hm.captured, Option.bind_some, if_pos hnames, hm.unbound x hx]
  rfl

end Moment.InCall

/-! ## Functions that definitions make -/

/-- The function that a definition makes, and the decorators to be applied to it. -/
def Run.made (call : Caller) (f : Frame) (span : Span) (d : Definition) :
    Run (List Value × Function) := do
  let decorators ← evalAll call f d.decorators
  let params ← evalParams call f d.params
  let captured ← view (f.capture · d.freeNames)
  return (decorators, ⟨d.name, d, params, f.globals, captured, f.origin span⟩)

theorem Run.define_eq (call : Caller) (f : Frame) (span : Span) (d : Definition) :
    define call f span d = (do
      let (decorators, g) ← made call f span d
      let r ← make (·.newFunction g)
      decorate call decorators (.function r)) := by
  simp only [define, made, bind_assoc, pure_bind]

/-- The second function is made in a call of the first one, by a definition that starts at the
moment and does not stand in a class. -/
structure Function.Makes (host : Host) (g : Function) (m : Moment) (g' : Function) : Prop where
  call : ∃ fuel machine args s, m ∈ ofCall (callIn host fuel machine) fuel g args s ∧
    ∃ span d decorators t, m.event = .define span d ∧
      Run.made (callIn host fuel machine) m.frame span d m.store = .ok (decorators, g') t
  plain : m.classes = []

/-- The second function is the first one, or was made in a call of a function that the first one
leads to.  None of the functions binds the name. -/
inductive Function.LeadsTo (host : Host) (x : String) : Function → Function → Prop
  | refl {g : Function} : x ∉ g.bound → LeadsTo host x g g
  | step {g g' g'' : Function} {m : Moment} : LeadsTo host x g g' → g'.Makes host m g'' →
    x ∉ g''.bound → LeadsTo host x g g''

variable {host : Host} {x : String} {v : Value} {g g' : Function} {m : Moment}

theorem Function.LeadsTo.not_bound (h : g.LeadsTo host x g') : x ∉ g'.bound := by
  cases h with
  | refl hx => exact hx
  | step _ _ hx => exact hx

theorem Function.LeadsTo.head_not_bound (h : g.LeadsTo host x g') : x ∉ g.bound := by
  induction h with
  | refl hx => exact hx
  | step _ _ _ ih => exact ih

/-- A definition that starts at a moment captures what names stand for at this moment, and what its
function needs from outside is counted as read around. -/
theorem Function.Makes.captures (hhost : host.Parametric) (h : g.Makes host m g')
    (hx : x ∉ g'.bound) (hread : x ∈ Stmt.readsAll g'.definition.body) :
    g'.captured.get? x = ((m.store.bindings m.frame.locals).get? x <|> g.captured.get? x) ∧
      m.bound = g.bound ∧ x ∈ Stmt.readsAll g.definition.body := by
  obtain ⟨fuel, machine, args, s, hmem, span, d, decorators, t, hevent, hmade⟩ := h.call
  have hcall := callIn_preserves hhost fuel machine
  have hm := Moment.inCall hcall fuel m hmem
  obtain ⟨hbound, hnames⟩ := hm.own h.plain
  obtain ⟨ds, t₁, hds, hmade⟩ := EStateM.bind_eq_ok.1 hmade
  obtain ⟨ps, t₂, hps, hmade⟩ := EStateM.bind_eq_ok.1 hmade
  obtain rfl : (⟨d.name, d, ps, m.frame.globals, m.frame.capture t₂ d.freeNames,
      m.frame.origin span⟩ : Function) = g' := by
    cases hmade
    rfl
  -- While decorators and defaults are evaluated, the name stands for what it stood for.
  have hsame : (t₂.bindings m.frame.locals).get? x = (m.store.bindings m.frame.locals).get? x := by
    have hstart :
        m.store.Has (· = ⟨m.frame.locals, x, (m.store.bindings m.frame.locals).get? x⟩) := by
      rintro _ rfl
      exact ⟨hm.locals, rfl⟩
    have hdecorators :=
      (Related.kinship.evalAll (hcall _) m.frame.avoids_nothing _).preserves hstart hds
    have hparams :=
      (Related.kinship.evalParams (hcall _) m.frame.avoids_nothing _).preserves hdecorators hps
    exact (hparams _ rfl).2
  have hparams : Param.names ps = Param.names d.params := by
    have hrun := Related.kinship.evalParams (hcall fun _ => False) m.frame.avoids_nothing d.params
      t₁ t₁ (Store.Has.both nofun)
    rw [hps] at hrun
    cases hrun with
    | ok hnames _ => exact hnames.2.1
  have hfree : x ∈ d.freeNames := by
    refine List.mem_eraseDups.2 (List.mem_filter.2 ⟨hread, ?_⟩)
    rw [Function.bound, hparams] at hx
    simpa using hx
  refine ⟨?_, hbound, hnames (by rw [hevent]; exact hfree)⟩
  rw [Frame.get?_capture, hm.captured, Option.bind_some, if_pos hfree, hsame]

/-- What a function has captured is handed on to those that it leads to, if they need it. -/
theorem Function.LeadsTo.captured (hhost : host.Parametric) (h : g.LeadsTo host x g')
    (hg : x ∈ Stmt.readsAll g.definition.body → g.captured.get? x = some v)
    (hread : x ∈ Stmt.readsAll g'.definition.body) : g'.captured.get? x = some v := by
  induction h with
  | refl => exact hg hread
  | @step g₁ g₂ m hlead hmakes hx ih =>
    obtain ⟨hcaptured, hbound, hread'⟩ := hmakes.captures hhost hx hread
    obtain ⟨fuel, machine, args, s, hmem, -⟩ := hmakes.call
    have hm := Moment.inCall (callIn_preserves hhost fuel machine) fuel m hmem
    rw [hcaptured, hm.unbound x (hbound ▸ hlead.not_bound), ih hread']
    rfl

/-- In a call of a function that comes from a definition by nested ones, a name from outside stands
for what it stood for when the first definition started: no later assignment and no global changes
it. -/
theorem Function.LeadsTo.read_resolves (hhost : host.Parametric) {g₀ g₁ : Function} {m₀ : Moment}
    (hmakes : g₀.Makes host m₀ g₁)
    (hv : ((m₀.store.bindings m₀.frame.locals).get? x <|> g₀.captured.get? x) = some v)
    (hchain : g₁.LeadsTo host x g) {fuel : Nat} {machine : Machine} {args : Arguments} {s : Store}
    (hm : m ∈ ofCall (callIn host fuel machine) fuel g args s) (hplain : m.classes = [])
    (hread : m.event = .read x) : Run.lookup m.frame x m.store = .ok v m.store := by
  have hin := Moment.inCall (callIn_preserves hhost fuel machine) fuel m hm
  obtain ⟨hbound, hnames⟩ := hin.own hplain
  have hx : x ∉ m.bound := hbound ▸ hchain.not_bound
  have hcaptured : g.captured.get? x = some v := by
    refine hchain.captured hhost (fun hneeded => ?_) (hnames ?_)
    · exact (hmakes.captures hhost hchain.head_not_bound hneeded).1.trans hv
    · rw [hread]
      exact List.mem_singleton_self x
  have hfind : m.frame.find? m.store x = some v := by
    rw [hin.find? hx, hcaptured]
    rfl
  have hlookup := Run.lookup_bind hfind (pure : Value → Run Value)
  rwa [bind_pure] at hlookup

/-! ## A name that is assigned again -/

section Sample

/-- A function that binds the name again behind the definition, and definitions that need it:

    def f(a):
        def g():
            def h():
                return a
            return h
        a = 8
        return g
-/
def sampleNestText : Source := ⟨"sample", "def f(a):\n    def g():\n        def h():\n" ++
  "            return a\n        return h\n    a = 8\n    return g\n"⟩

/-- The definition of `h`. -/
def sampleInner : Definition := ⟨"h", [], [], [.ret ⟨52, 60⟩ (some (.name ⟨59, 60⟩ "a"))]⟩

/-- The definition of `g`. -/
def sampleMiddle : Definition where
  name := "g"
  decorators := []
  params := []
  body := [.define ⟨31, 60⟩ "h" [] [] sampleInner.body, .ret ⟨69, 77⟩ (some (.name ⟨76, 77⟩ "h"))]

/-- The definition of `f`. -/
def sampleOuter : Definition where
  name := "f"
  decorators := []
  params := [⟨"a", .plain none⟩]
  body := [.define ⟨14, 77⟩ "g" [] [] sampleMiddle.body,
    .assign ⟨82, 87⟩ [.name ⟨82, 83⟩ "a"] (.int ⟨86, 87⟩ 8),
    .ret ⟨92, 100⟩ (some (.name ⟨99, 100⟩ "g"))]

/-- The function of a definition, with what it has captured. -/
def sampleNestFunction (d : Definition) (span : Span) (captured : Table Value) : Function :=
  ⟨d.name, d, d.params.map fun p => ⟨p.name, .plain none⟩, ⟨0⟩, captured, ⟨sampleNestText, 0, span⟩⟩

/-- The globals: `a` is `9`, and there is the base of classes. -/
def sampleNestGlobals : Table Value := .ofList [("a", .int 9), ("_slots", .builtin .slots)]

/-- A store with the names of a call behind the globals. -/
def sampleNestStore (locals : List (Table Value)) : Store :=
  { Store.empty with namespaces := (sampleNestGlobals :: locals).toArray }

/-- The frame of a call. -/
def sampleNestFrame (captured : Table Value) : Frame := ⟨⟨1⟩, ⟨0⟩, some captured, sampleNestText, 0⟩

/-- The name `a` with the value `7`. -/
def sampleSeven : Table Value := .ofList [("a", .int 7)]

/-- The start of the definition of `g`, in a call of `f` with `7`. -/
def sampleOuterMoment : Moment where
  classes := []
  frame := sampleNestFrame .empty
  bound := ["a", "g", "a"]
  event := .define ⟨14, 77⟩ sampleMiddle
  store := sampleNestStore [sampleSeven]

/-- The start of the definition of `h`, in a call of `g`. -/
def sampleMiddleMoment : Moment where
  classes := []
  frame := sampleNestFrame sampleSeven
  bound := ["h"]
  event := .define ⟨31, 60⟩ sampleInner
  store := sampleNestStore [.empty]

/-- The look-up of `a`, in a call of `h`. -/
def sampleInnerMoment : Moment where
  classes := []
  frame := sampleNestFrame sampleSeven
  bound := []
  event := .read "a"
  store := sampleNestStore [.empty]

theorem sampleOuter_makes : (sampleNestFunction sampleOuter ⟨0, 100⟩ .empty).Makes .probe
    sampleOuterMoment (sampleNestFunction sampleMiddle ⟨14, 77⟩ sampleSeven) where
  call := by
    have hmoments : ∃ rest, ofCall (callIn .probe 3 .captured) 3
        (sampleNestFunction sampleOuter ⟨0, 100⟩ .empty) (.ofList [.int 7]) (sampleNestStore []) =
          sampleOuterMoment :: rest := ⟨_, by with_unfolding_all rfl⟩
    obtain ⟨rest, hmoments⟩ := hmoments
    exact ⟨3, .captured, .ofList [.int 7], sampleNestStore [], hmoments ▸ List.mem_cons_self,
      ⟨14, 77⟩, sampleMiddle, [], _, rfl, by with_unfolding_all rfl⟩
  plain := rfl

theorem sampleMiddle_makes : (sampleNestFunction sampleMiddle ⟨14, 77⟩ sampleSeven).Makes .probe
    sampleMiddleMoment (sampleNestFunction sampleInner ⟨31, 60⟩ sampleSeven) where
  call := by
    have hmoments : ∃ rest, ofCall (callIn .probe 3 .captured) 3
        (sampleNestFunction sampleMiddle ⟨14, 77⟩ sampleSeven) (.ofList []) (sampleNestStore []) =
          sampleMiddleMoment :: rest := ⟨_, by with_unfolding_all rfl⟩
    obtain ⟨rest, hmoments⟩ := hmoments
    exact ⟨3, .captured, .ofList [], sampleNestStore [], hmoments ▸ List.mem_cons_self, ⟨31, 60⟩,
      sampleInner, [], _, rfl, by with_unfolding_all rfl⟩
  plain := rfl

/-- In `h` the name stands for `7`, neither for the `8` that `f` assigns nor for the global `9`. -/
theorem sampleInner_resolves : Host.probe.Parametric ∧
    (sampleNestFunction sampleOuter ⟨0, 100⟩ .empty).Makes .probe sampleOuterMoment
      (sampleNestFunction sampleMiddle ⟨14, 77⟩ sampleSeven) ∧
    (sampleNestFunction sampleMiddle ⟨14, 77⟩ sampleSeven).LeadsTo .probe "a"
      (sampleNestFunction sampleInner ⟨31, 60⟩ sampleSeven) ∧
    Run.lookup sampleInnerMoment.frame "a" sampleInnerMoment.store =
      .ok (.int 7) sampleInnerMoment.store := by
  have hleads : (sampleNestFunction sampleMiddle ⟨14, 77⟩ sampleSeven).LeadsTo .probe "a"
      (sampleNestFunction sampleInner ⟨31, 60⟩ sampleSeven) :=
    .step (.refl (by decide)) sampleMiddle_makes (by decide)
  have hmoments : ∃ rest, ofCall (callIn .probe 3 .captured) 3
      (sampleNestFunction sampleInner ⟨31, 60⟩ sampleSeven) (.ofList []) (sampleNestStore []) =
        sampleInnerMoment :: rest := ⟨_, by with_unfolding_all rfl⟩
  obtain ⟨rest, hmoments⟩ := hmoments
  refine ⟨Host.parametric_probe, sampleOuter_makes, hleads, ?_⟩
  exact Function.LeadsTo.read_resolves Host.parametric_probe sampleOuter_makes rfl hleads
    (hmoments ▸ List.mem_cons_self) rfl rfl

/-- A class in a function, whose body needs the parameter:

    def f(a):
        class P(_slots):
            y = a
-/
def sampleClass : Definition where
  name := "f"
  decorators := []
  params := [⟨"a", .plain none⟩]
  body := [.class_ ⟨14, 48⟩ "P" (some (.name ⟨22, 28⟩ "_slots"))
    [.assign ⟨43, 48⟩ [.name ⟨43, 44⟩ "y"] (.name ⟨47, 48⟩ "a")]]

/-- In a call with `7` the name stands for the global `9` in the body of the class. -/
example : (ofCall (callIn .probe 3 .captured) 3 (sampleNestFunction sampleClass ⟨0, 48⟩ .empty)
    (.ofList [.int 7]) (sampleNestStore [])).map (fun m => (m.classes, m.frame.find? m.store "a")) =
    [([], some (.int 7)), (["P"], some (.int 9))] := by with_unfolding_all rfl

end Sample

end StagedScript
