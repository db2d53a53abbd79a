import StagedScript.Proofs.Maker.Written
import StagedScript.Proofs.Unrolling.Shadowing

/-!
# Functions made anew, unrolled or not

A function that is made anew and the same function with its loops unrolled have makers that differ
by unrolling.  Nothing leads to a maker but the call that follows its definition.
-/

namespace StagedScript

open Run

/-! ## Makers that differ by unrolling -/

/-- The function and the namespace that are made next: no value of a store leads to them yet. -/
def Store.next (s : Store) : Hidden := ⟨(· = ⟨s.functions.size⟩), (· = ⟨s.namespaces.size⟩)⟩

/-- No facts. -/
abbrev Fact.nothing (_ : Fact) : Prop := False

section

variable {known : Table Extent} {s : Store}

/-- Stores with makers that have the same name are related, since nothing leads to the makers. -/
theorem Related.withMaker (hs : s.Avoids s.next) {f g : Function} (hf : f.Avoids s.next)
    (hname : g.name = f.name) :
    Related known Fact.nothing s.next Fact.nothing (s.withMaker f) (s.withMaker g) := by
  refine ⟨rfl, ?_, ?_, ?_, ?_, ?_, fun φ hφ => (hφ.elim id id).elim⟩
  · intro r
    rw [s.getFunction?_withMaker, s.getFunction?_withMaker]
    split
    · rw [Option.map_some, Option.map_some, hname]
    · rfl
  · intro r hr x hx
    rw [s.getFunction?_withMaker] at hx ⊢
    have hne : r.index ≠ s.functions.size := fun h => hr (congrArg FunctionRef.mk h)
    rw [if_neg hne] at hx ⊢
    exact ⟨x, hx, .same x⟩
  · exact ((hs.newNamespace Table.avoids_empty).newFunction hf).bind (fun hr => absurd rfl hr) _
  · rintro r rfl
    simp [Store.withMaker, Store.bind, Store.modifyBindings, Store.newFunction, Store.newNamespace]
  · rintro r rfl
    simp [Store.withMaker, Store.bind, Store.modifyBindings, Store.newFunction, Store.newNamespace]

theorem callIn_function (host : Host) (fuel : Nat) (m : Machine) {r : FunctionRef} {f : Function}
    (hf : s.getFunction? r = some f) (args : Arguments) :
    callIn host (fuel + 1) m (.function r) args s =
      if Machine.maxDepth ≤ m.depth then Run.fail (.depth Machine.maxDepth) s
      else callBody (callIn host fuel m.deeper) fuel f args s := by
  rw [callIn]
  dsimp only
  split
  · rfl
  · have hview : view (·.getFunction? r) s = .ok (some f) s := by
      rw [← hf]
      rfl
    rw [EStateM.bind_ok hview]

variable {host : Host} (hhost : host.Parametric) (fuel : Nat) (m : Machine)
include hhost

/-- Makers are called alike with the values of their names, if loops over these are unrolled in the
second one and nothing around the loops hides them. -/
theorem Script.maker_matches {script : Script} {globals : NamespaceRef} {vars : Table Value}
    {span : Span} {body body' : List Stmt} (hs : s.Avoids s.next)
    (hglobals : ¬ s.next.namespaces globals) (hvars : vars.Avoids s.next)
    (hknown : ∀ x n, known.get? x = some (.sized n) →
      ∃ v, vars.get? x = some v ∧ v.Counts n ∧ n < Run.lengthLimit)
    (hb : Unrolls known body body') (hplaced : Stmt.misplacedIn? .function body = none)
    (hclear : Stmt.UnshadowedAll known (· ∈ Stmt.bindsAll body) (· ∈ vars.keys) body) :
    Outcome (Related known Fact.nothing s.next Fact.nothing) (fun v w => v = w ∧ v.Avoids s.next)
      (callIn host fuel m (.function ⟨s.functions.size⟩) ⟨[], vars⟩
        (s.withMaker (script.maker globals vars.keys span body)))
      (callIn host fuel m (.function ⟨s.functions.size⟩) ⟨[], vars⟩
        (s.withMaker (script.maker globals vars.keys span body'))) := by
  have hmaker : (script.maker globals vars.keys span body).Avoids s.next := by
    refine ⟨fun p hp => ?_, Table.avoids_empty, hglobals⟩
    obtain ⟨x, -, rfl⟩ := List.mem_map.1 hp
    rintro v ⟨⟩
  have hrelated : Related known Fact.nothing s.next Fact.nothing
      (s.withMaker (script.maker globals vars.keys span body))
      (s.withMaker (script.maker globals vars.keys span body')) := Related.withMaker hs hmaker rfl
  have hget (x : Function) : (s.withMaker x).getFunction? ⟨s.functions.size⟩ = some x := by
    rw [s.getFunction?_withMaker, if_pos rfl]
  cases fuel with
  | zero => exact .error hrelated
  | succ fuel =>
    rw [callIn_function host fuel m (hget _), callIn_function host fuel m (hget _)]
    split
    · exact Kinship.fail (.depth Machine.maxDepth) _ _ hrelated
    · -- The parameters have the values of the names, and so have the loops of the body.
      have hargs : Respects (Related known Fact.nothing s.next Fact.nothing)
          (fun t => t.Avoids s.next ∧ t = vars)
          (Run.bindArguments (script.maker globals vars.keys span body) ⟨[], vars⟩) := by
        rw [Function.bindArguments_plain _ vars rfl]
        exact .pure ⟨hvars, rfl⟩
      let σ : Sight := ⟨vars.get?, some fun _ => none, fun _ => none⟩
      have hresolved : Stmt.ResolvedAll known (· ∈ Stmt.bindsAll body) σ body := by
        refine hb.resolvedAll_of_unshadowed hplaced hclear (fun _ => id) (fun x hx => ?_) rfl
          fun x _ n hn _ => ?_
        · exact Table.get?_eq_none_iff.2 hx
        · obtain ⟨v, hv, hcounts⟩ := hknown x n hn
          exact ⟨v, by simp [σ, hv], hcounts⟩
      refine Function.callBody_matches (fun facts => callIn_respects hhost fuel m.deeper facts) fuel
        (Or.inl rfl) hb hargs (· ∈ Stmt.bindsAll body) (σ := σ)
        (fun r φ => φ.place = r ∧ φ.name ∉ Stmt.bindsAll body ∧ vars.get? φ.name = φ.value?)
        ?_ ?_ _ _ hrelated
      · rintro t rfl r φ ⟨hplace, -, hvalue⟩
        exact ⟨hplace, hvalue⟩
      · intro r hr _
        refine ⟨⟨hr, hglobals, ?_⟩, ⟨?_, ?_, ?_⟩, hresolved, ?_⟩
        · rintro t ⟨⟩
          exact Table.avoids_empty
        · exact fun x hx => Or.inr (Or.inr ⟨rfl, hx, rfl⟩)
        · exact fun x _ => rfl
        · rintro x v _ ⟨⟩
        · rintro φ (hφ | hφ | ⟨-, hname, -⟩) _
          · exact hφ.elim
          · exact hφ.elim
          · exact hname

end

/-! ## Closures that differ by unrolling -/

namespace Closure

theorem unrolled_eq_script {c : Closure} (hc : c.unrollings = []) : c.unrolled = .ok c.script := by
  unfold unrolled
  rw [hc]
  rfl

/-- What unrolling makes of the script of a closure that was not to be unrolled yet. -/
theorem unrolled_unrolling {c : Closure} (hc : c.unrollings = []) {known : Table Extent}
    {script : Script} (hscript : (c.unrolling known).unrolled = .ok script) :
    ∃ b, Unroll.stmts known c.script.body = .ok b ∧ script = { c.script with body := b } := by
  unfold unrolled unrolling at hscript
  rw [hc, List.nil_append] at hscript
  split at hscript
  · next script' hrun =>
    cases hscript
    obtain ⟨_, _, hone, hrest⟩ := EStateM.bind_eq_ok.1 hrun
    cases hrest
    exact Script.unroll_eq_ok.1 hone
  · cases hscript

theorem get?_known {c : Closure} {s : Store} {p : String → Bool} {x : String} {n : Nat}
    (hx : (c.known s p).get? x = some (.sized n)) :
    p x = true ∧ ∃ v, c.vars.get? x = some v ∧ v.Counts n := by
  unfold known at hx
  rw [Table.get?_map, Table.get?_filter] at hx
  obtain ⟨v, hv, hextent⟩ := Option.map_eq_some_iff.1 hx
  split at hv
  · next hp => exact ⟨hp, v, hv, counts_of_extentOf hextent⟩
  · cases hv

/-- What a function can be specialized to holds nothing that is made next, and making the closure
makes neither functions nor namespaces. -/
theorem avoids_of_ofFunction {v : Value} {given : Table Value} {s t : Store} {c : Closure}
    (hs : s.Avoids s.next) (hv : v.Avoids s.next) (hgiven : given.Avoids s.next)
    (hc : ofFunction v given s = .ok c t) :
    t.next = s.next ∧ t.Avoids s.next ∧ c.function.Avoids s.next ∧ c.vars.Avoids s.next := by
  -- The computation is compared with itself, on stores with the functions and namespaces of `s`.
  let R (t t' : Store) : Prop := t = t' ∧ t.Avoids s.next ∧ t.functions = s.functions ∧
    t.namespaces = s.namespaces
  have K : Kinship s.next R := by
    refine ⟨fun h => ⟨?_, fun r => ?_, fun r _ f hf => ?_⟩, fun h => h.2.1, fun hg t t' h ha => ?_⟩
    · rw [h.1]
    · rw [h.1]
    · exact ⟨f, by rw [← h.1, hf], rfl, rfl⟩
    · obtain ⟨rfl, -, hfunctions, hnamespaces⟩ := h
      exact ⟨rfl, ha, (hg.functions_eq t).trans hfunctions, (hg.namespaces t).trans hnamespaces⟩
  have hget : ∀ r, v = .function r → Matches R
      (Function.FoundAlike .empty Fact.nothing s.next)
      (Run.view (·.getFunction? r)) (Run.view (·.getFunction? r)) := by
    rintro r rfl t t' ⟨rfl, ha, hfunctions, hnamespaces⟩
    refine .ok ?_ ⟨rfl, ha, hfunctions, hnamespaces⟩
    dsimp only
    cases hf : t.getFunction? r with
    | none => exact .none
    | some f => exact .some (.same f) (ha.functions r f hv hf)
  have hmade := ofFunction_matches K hget hgiven s s ⟨rfl, hs, rfl, rfl⟩
  rw [hc] at hmade
  cases hmade with
  | ok hcc hst =>
    obtain ⟨-, ha, hfunctions, hnamespaces⟩ := hst
    refine ⟨?_, ha, hcc.avoids, hcc.vars⟩
    rw [Store.next, Store.next, hfunctions, hnamespaces]

end Closure

/-- Closures are made alike, with the loops over names with fixed values unrolled or not, if nothing
around such a loop hides its name: either neither function is made, with the same error, or they are
made alike by makers that nothing else leads to. -/
theorem Closure.make_matches_unrolled {host : Host} (hhost : host.Parametric) (fuel rounds : Nat)
    (m : Machine) {v : Value} {names : Table Value} {s₀ s : Store} {c : Closure}
    (hs : s₀.Avoids s₀.next) (hv : v.Avoids s₀.next) (hnames : names.Avoids s₀.next)
    (hc : Closure.ofFunction v names s₀ = .ok c s) {span : Span} {body : List Stmt}
    (hbody : c.script.DefinesMaker c.vars.keys span body) {known : Table Extent}
    (hknown : known = c.known s fun name => names.contains name && name != unrollName)
    (hitems : ∀ x v, names.contains x = true → c.vars.get? x = some v → x ≠ unrollName →
      ∃ n, v.Counts n ∧ 0 < n ∧ n < Run.lengthLimit)
    (hclear : Stmt.UnshadowedAll known (· ∈ Stmt.bindsAll body) (· ∈ c.vars.keys) body)
    {script : Script} (hscript : (c.unrolling known).unrolled = .ok script) :
    (∃ e, c.make (callIn host fuel m) rounds s = .error e s ∧
      (c.unrolling known).make (callIn host fuel m) rounds s = .error e s) ∨
    Outcome (Related known Fact.nothing s.next Fact.nothing) (fun v w => v = w ∧ v.Avoids s.next)
      (c.make (callIn host fuel m) rounds s)
      ((c.unrolling known).make (callIn host fuel m) rounds s) := by
  obtain ⟨hnext, ha, hf, hvars⟩ := Closure.avoids_of_ofFunction hs hv hnames hc
  rw [← hnext] at ha hf hvars
  obtain ⟨_, _, hwritten⟩ := Closure.written_of_ofFunction hc
  obtain ⟨b, hb, rfl⟩ := Closure.unrolled_unrolling hwritten.unrollings hscript
  have hcounts (x : String) (n : Nat) (hx : known.get? x = some (.sized n)) :
      ∃ v, c.vars.get? x = some v ∧ v.Counts n ∧ 0 < n ∧ n < Run.lengthLimit := by
    rw [hknown] at hx
    obtain ⟨hp, v, hv, hn⟩ := Closure.get?_known hx
    rw [Bool.and_eq_true, bne_iff_ne] at hp
    obtain ⟨k, hk, hpos, hlt⟩ := hitems x v hp.1 hv hp.2
    rw [hk.unique hn] at hpos hlt
    exact ⟨v, hv, hn, hpos, hlt⟩
  -- The maker of the unrolled function is the maker of the other with its body unrolled.
  rw [hbody] at hb
  have hall := Unrolls.of_stmts _ hb fun x _ hx => by
    obtain ⟨_, -, -, hpos, -⟩ := hcounts x 0 hx
    exact absurd hpos (Nat.lt_irrefl 0)
  obtain ⟨body', hbody', rfl⟩ : ∃ body', Unrolls known body body' ∧
      b = [.define span SpecializeError.makerName [] (Param.plain Expr c.vars.keys) body'] := by
    cases hall with
    | plain h _ => cases h
    | define hbody' hrest =>
      cases hrest
      exact ⟨_, hbody', rfl⟩
  rw [Closure.make_eq _ _ (Closure.unrolled_eq_script hwritten.unrollings) hbody,
    Closure.make_eq _ _ (c := c.unrolling known) hscript rfl, hbody'.misplacedIn?_eq]
  cases hplaced : Stmt.misplacedIn? .function body with
  | some what => exact Or.inl ⟨_, rfl, rfl⟩
  | none =>
    refine Or.inr ?_
    refine (Script.maker_matches hhost fuel m ha hf.globals hvars (fun x n hx => ?_) hbody' hplaced
      hclear).ofRun
    obtain ⟨v, hv, hn, -, hlt⟩ := hcounts x n hx
    exact ⟨v, hv, hn, hlt⟩

/-! ## Functions that differ by unrolling -/

/-- A function made anew with values for free names, with no loop unrolled. -/
def makeOver (call : Caller) (rounds : Nat) (names : Table Value) (v : Value) :
    Specialize Value := do
  (← Closure.ofFunction v names).make call rounds

/-- The function and what it has captured have names that a text can give them. -/
structure Function.Named (f : Function) : Prop where
  name : Word.isName f.name = true
  captured : ∀ x ∈ f.captured.keys, Word.isName x = true

/-- From the two stores on, as many calls end alike one after the other: with the same values and
the same errors.  What the calls are given leads to nothing that is hidden. -/
def Store.CallsAlike (host : Host) (h : Hidden) : Nat → Store → Store → Prop
  | 0, _, _ => True
  | n + 1, s, t => ∀ (fuel : Nat) (m : Machine) (callee : Value) (args : Arguments),
      callee.Avoids h → args.Avoids h →
        Outcome (CallsAlike host h n) (fun v w => v = w ∧ v.Avoids h)
          (callIn host fuel m callee args s) (callIn host fuel m callee args t)

theorem Related.callsAlike {host : Host} (hhost : host.Parametric) {known : Table Extent}
    {base facts : Fact → Prop} {h : Hidden} {s t : Store} (hst : Related known base h facts s t)
    (n : Nat) : Store.CallsAlike host h n s t := by
  induction n generalizing s t with
  | zero => trivial
  | succ n ih =>
    intro fuel m callee args hcallee hargs
    exact (callIn_respects hhost fuel m facts callee args hcallee hargs s t hst).mono
      (fun _ _ hst' => ih hst') fun _ _ => id

/-- No scope around a loop of a function over one of the names hides the name. -/
def Closure.Unshadowed (c : Closure) (known : Table Extent) : Prop :=
  ∀ span body, c.script.DefinesMaker c.vars.keys span body →
    Stmt.UnshadowedAll known (· ∈ Stmt.bindsAll body) (· ∈ c.vars.keys) body

theorem Value.Counts.fixed {v : Value} {n : Nat} (hv : v.Counts n) : Closure.fixed v = pure v := by
  cases v <;> first | rfl | cases hv

/-- What has been read for a closure of a function with names is the definition of its maker. -/
theorem Closure.definesMaker_of_ofFunction {v : Value} {names : Table Value} {s t : Store}
    {c : Closure} (hf : ∀ r f, v = .function r → s.getFunction? r = some f → f.Named)
    (hc : Closure.ofFunction v names s = .ok c t) :
    ∃ span body, c.script.DefinesMaker c.vars.keys span body := by
  obtain ⟨script, text, hwritten⟩ := Closure.written_of_ofFunction hc
  obtain ⟨r, hr, hget⟩ := hwritten.function
  have hnamed := hf r c.function hr hget
  exact hwritten.definesMaker (Word.newline_not_mem_of_isName hnamed.name)
    (Closure.isName_of_ofFunction hc hnamed.captured)

/-- Unrolling respects shadowing as far as nothing is shadowed.  A function is made anew with names
for which it is given tuples or strings that are not empty, once with the loops over these names
unrolled and once without.  If no scope around such a loop hides its name, then either unrolling is
refused, or neither function is made, with the same error, or both are made with one and the same
value, and from then on any number of calls end alike. -/
theorem unrolling_respects_shadowing {host : Host} (hhost : host.Parametric) (fuel rounds : Nat)
    (m : Machine) {v : Value} {names : Table Value} {s : Store}
    (hs : s.Avoids s.next) (hv : v.Avoids s.next) (hnames : names.Avoids s.next)
    (hf : ∀ r f, v = .function r → s.getFunction? r = some f → f.Named)
    (hitems : ∀ e ∈ names.entries, ∃ n, e.2.Counts n ∧ 0 < n ∧ n < Run.lengthLimit)
    (hclear : ∀ c t, Closure.ofFunction v names s = .ok c t →
      c.Unshadowed (c.known t fun name => names.contains name && name != unrollName)) :
    (∃ e t, unrollOver (callIn host fuel m) rounds names v s = .error (.unroll e) t) ∨
    (∃ e t, makeOver (callIn host fuel m) rounds names v s = .error e t ∧
      unrollOver (callIn host fuel m) rounds names v s = .error e t) ∨
    ∀ n, Outcome (Store.CallsAlike host s.next n) (fun v w => v = w ∧ v.Avoids s.next)
      (makeOver (callIn host fuel m) rounds names v s)
      (unrollOver (callIn host fuel m) rounds names v s) := by
  cases hc : Closure.ofFunction v names s with
  | error e t => exact .inr (.inl ⟨e, t, EStateM.bind_error hc, EStateM.bind_error hc⟩)
  | ok c t =>
    rw [makeOver, unrollOver, EStateM.bind_ok hc, EStateM.bind_ok hc]
    change (∃ e u, (c.unrolling (c.known t _)).make _ _ t = .error (.unroll e) u) ∨
      (∃ e u, c.make _ _ t = .error e u ∧ (c.unrolling (c.known t _)).make _ _ t = .error e u) ∨
      ∀ n, Outcome _ _ (c.make _ _ t) ((c.unrolling (c.known t _)).make _ _ t)
    cases hunrolled : (c.unrolling (c.known t fun name =>
        names.contains name && name != unrollName)).unrolled with
    | error e =>
      refine .inl ⟨e, t, ?_⟩
      unfold Closure.make
      rw [hunrolled]
      rfl
    | ok script =>
      obtain ⟨span, body, hbody⟩ := Closure.definesMaker_of_ofFunction hf hc
      have hnext := (Closure.avoids_of_ofFunction hs hv hnames hc).1
      have hvalues (x : String) (w : Value) (hx : names.contains x = true)
          (hw : c.vars.get? x = some w) (hne : x ≠ unrollName) :
          ∃ n, w.Counts n ∧ 0 < n ∧ n < Run.lengthLimit := by
        obtain ⟨given, passing, s₁, hgiven, -, hvars⟩ := Closure.vars_of_ofFunction hc
        obtain rfl :=
          Closure.fixedAll_of_fixed (fun e he => (hitems e he).choose_spec.1.fixed) hgiven
        rw [hvars, Closure.get?_varsOf hne (Table.contains_iff.1 hx)] at hw
        exact hitems (x, w) (Table.mem_of_get? hw)
      have hmade :=
        Closure.make_matches_unrolled hhost fuel rounds m hs hv hnames hc hbody rfl hvalues
        (hclear c t hc span body hbody) hunrolled
      rcases hmade with ⟨e, he, he'⟩ | hmade
      · exact .inr (.inl ⟨e, t, he, he'⟩)
      · rw [← hnext]
        exact .inr (.inr fun n => hmade.mono (fun _ _ hst => hst.callsAlike hhost n) fun _ _ => id)

end StagedScript
