import StagedScript.Proofs.Scoping.Moments
import StagedScript.Proofs.Unrolling.Calls

/-!
# Names that a body does not bind

Name analysis and execution agree about what a body binds and reads.  A frame binds only the names
that are counted as bound in it, whatever is called meanwhile, and what is looked up in the body is
counted as read there.
-/

namespace StagedScript

open Moment

/-! ## Facts that last -/

/-- The store has the facts. -/
def Store.Has (s : Store) (facts : Fact → Prop) : Prop := ∀ φ, facts φ → φ.Holds s

/-- Nothing is unrolled and nothing is out of reach; there are the facts. -/
abbrev Store.BothHave (facts : Fact → Prop) : Store → Store → Prop :=
  Related .empty (fun _ => False) .nothing facts

variable {α β γ : Type} {facts : Fact → Prop} {s t : Store}

theorem Store.Has.both (h : s.Has facts) : Store.BothHave facts s s :=
  ⟨rfl, fun _ => rfl, fun _ _ f hf => ⟨f, hf, .same f⟩, s.avoids_nothing, fun _ hr => hr.elim,
    fun _ hr => hr.elim, fun φ hφ => hφ.elim False.elim (h φ)⟩

theorem Store.BothHave.right (h : Store.BothHave facts s t) : t.Has facts := by
  intro φ hφ
  have hs : φ.Holds s := h.facts φ (.inr hφ)
  rw [h.eq]
  exact hs

theorem Frame.avoids_nothing (f : Frame) : f.Avoids .nothing :=
  ⟨id, id, fun _ _ e _ => e.2.avoids_nothing⟩

theorem Arguments.avoids_nothing (args : Arguments) : args.Avoids .nothing :=
  ⟨fun v _ => v.avoids_nothing, fun e _ => e.2.avoids_nothing⟩

/-- A computation with a result leaves the facts as they are. -/
def Run.Preserves (facts : Fact → Prop) (x : Run α) : Prop :=
  ∀ {s a t}, s.Has facts → x s = .ok a t → t.Has facts

theorem Respects.preserves {P : α → Prop} {x : Run α}
    (hx : Respects (Store.BothHave facts) P x) : Run.Preserves facts x := by
  intro s a t hs hok
  have h := hx s s hs.both
  rw [hok] at h
  cases h with
  | ok _ ht => exact ht.right

/-- Every call leaves all facts as they are. -/
def Caller.Preserves (call : Caller) : Prop :=
  ∀ facts, call.Respects .nothing (Store.BothHave facts)

/-- No call binds a name in a namespace that there is. -/
theorem callIn_preserves {host : Host} (hhost : host.Parametric) (fuel : Nat) (m : Machine) :
    (callIn host fuel m).Preserves := fun facts => callIn_respects hhost fuel m facts

/-! ## Lookups -/

/-- The names that are looked up are among these, and the facts hold then. -/
def Moment.Among (facts : Fact → Prop) (names : List String) (lookups : List (String × Store)) :
    Prop :=
  ∀ l ∈ lookups, l.1 ∈ names ∧ l.2.Has facts

theorem Moment.forall_mem_after {x : Run α} {k : α → Store → List β} {P : β → Prop}
    (h : ∀ a t, x s = .ok a t → ∀ b ∈ k a t, P b) : ∀ b ∈ after x s k, P b := by
  intro b hb
  unfold after at hb
  split at hb
  · next a t hx => exact h a t hx b hb
  · cases hb

namespace Moment.Among

variable {names names' : List String} {lookups lookups' : List (String × Store)}

theorem nil : Among facts names [] := nofun

theorem mono (h : Among facts names lookups) (hnames : names ⊆ names') :
    Among facts names' lookups :=
  fun l hl => ⟨hnames (h l hl).1, (h l hl).2⟩

/-- Lookups behind each other. -/
theorem append (h : Among facts names lookups) (h' : Among facts names' lookups') :
    Among facts (names ++ names') (lookups ++ lookups') := by
  intro l hl
  rcases List.mem_append.1 hl with hl | hl
  · exact h.mono (List.subset_append_left ..) l hl
  · exact h'.mono (List.subset_append_right ..) l hl

/-- Lookups behind a computation. -/
theorem after {x : Run α} (hx : Run.Preserves facts x) (hs : s.Has facts)
    {k : α → Store → List (String × Store)}
    (hk : ∀ a t, t.Has facts → Among facts names (k a t)) : Among facts names (after x s k) :=
  forall_mem_after fun a t hok => hk a t (hx hs hok)

end Moment.Among

section Frames

variable {call : Caller} (hcall : call.Preserves) (f : Frame)
include hcall

theorem Run.eval_preserves (e : Expr) : Run.Preserves facts (Run.eval call f e) :=
  (Related.kinship.eval (hcall facts) f.avoids_nothing e).preserves

mutual

/-- What the evaluation of an expression looks up is counted as read by it. -/
theorem Moment.ofEval_among (e : Expr) {s : Store} (hs : s.Has facts) :
    Among facts e.reads (ofEval call f e s) := by
  cases e with
  | int _ _ | float _ _ | str _ _ | bool _ _ | none_ _ => exact .nil
  | name span x =>
    intro l hl
    obtain rfl := List.mem_singleton.1 hl
    exact ⟨List.mem_singleton_self _, hs⟩
  | tuple span es | list span es => exact Moment.ofEvalAll_among es hs
  | dict span es => exact Moment.ofEvalEntries_among es hs
  | binary span op l r | compare span op l r =>
    exact (Moment.ofEval_among l hs).append
      (.after (Run.eval_preserves hcall f l) hs fun _ _ ht => Moment.ofEval_among r ht)
  | unary span op e => exact Moment.ofEval_among e hs
  | logical span op l r =>
    refine (Moment.ofEval_among l hs).append (.after (Run.eval_preserves hcall f l) hs
      fun a t ht => ?_)
    split
    · exact .nil
    · exact .nil
    · exact Moment.ofEval_among r ht
  | call span g args =>
    exact (Moment.ofEval_among g hs).append
      (.after (Run.eval_preserves hcall f g) hs fun _ _ ht => Moment.ofEvalArgs_among _ args ht)
  | attr span o x => exact Moment.ofEval_among o hs
  | subscript span o i =>
    exact (Moment.ofEval_among o hs).append
      (.after (Run.eval_preserves hcall f o) hs fun _ _ ht => Moment.ofEval_among i ht)

theorem Moment.ofEvalAll_among (es : List Expr) {s : Store} (hs : s.Has facts) :
    Among facts (Expr.readsAll es) (ofEvalAll call f es s) := by
  cases es with
  | nil => exact .nil
  | cons e es =>
    exact (Moment.ofEval_among e hs).append
      (.after (Run.eval_preserves hcall f e) hs fun _ _ ht => Moment.ofEvalAll_among es ht)

theorem Moment.ofEvalEntries_among (es : List (Expr × Expr)) {s : Store} (hs : s.Has facts) :
    Among facts (Expr.readsEntries es) (ofEvalEntries call f es s) := by
  cases es with
  | nil => exact .nil
  | cons entry es =>
    obtain ⟨k, e⟩ := entry
    have hkey : Run.Preserves facts (do Run.dictKey (← Run.eval call f k)) :=
      ((Related.kinship.eval (hcall facts) f.avoids_nothing k).bind fun v _ =>
        Related.kinship.dictKey v).preserves
    rw [Expr.readsEntries, List.append_assoc]
    exact (Moment.ofEval_among k hs).append (.after hkey hs fun _ _ ht =>
      (Moment.ofEval_among e ht).append (.after (Run.eval_preserves hcall f e) ht fun _ _ hu =>
        Moment.ofEvalEntries_among es hu))

theorem Moment.ofEvalArgs_among (before : Arguments) (args : List (Arg Expr)) {s : Store}
    (hs : s.Has facts) : Among facts (Expr.readsArgs args) (ofEvalArgs call f before args s) := by
  cases args with
  | nil => exact .nil
  | cons arg args =>
    obtain ⟨role, e⟩ := arg
    have hadd : Run.Preserves facts (do Run.addArgument before role (← Run.eval call f e)) :=
      ((Related.kinship.eval (hcall facts) f.avoids_nothing e).bind fun v hv =>
        Related.kinship.addArgument before.avoids_nothing role hv).preserves
    exact (Moment.ofEval_among e hs).append
      (.after hadd hs fun _ _ ht => Moment.ofEvalArgs_among _ args ht)

end

end Frames

/-! ## Assignments -/

/-- The facts about a frame are not about these names. -/
def Frame.Free (f : Frame) (facts : Fact → Prop) (names : List String) : Prop :=
  ∀ φ, facts φ → φ.place = f.locals → φ.name ∉ names

theorem Frame.Free.mono {f : Frame} {names names' : List String} (h : f.Free facts names)
    (hnames : names' ⊆ names) : f.Free facts names' :=
  fun φ hφ hplace hx => h φ hφ hplace (hnames hx)

/-- Binding a name leaves the facts about others as they are. -/
theorem Frame.Free.bind {f : Frame} {names : List String} (h : f.Free facts names) {x : String}
    (hx : x ∈ names) (v : Value) : Respects (Store.BothHave facts) anything (Run.bind f x v) :=
  Related.bind v.avoids_nothing fun φ hφ hplace heq =>
    h φ (hφ.resolve_left id) hplace (heq ▸ hx)

section Assignments

variable {call : Caller} (hcall : call.Preserves) {f : Frame}
include hcall

theorem Run.assign_respects (target : Expr) (hfree : f.Free facts target.stores) (v : Value) :
    Respects (Store.BothHave facts) anything (Run.assign call f target v) :=
  Related.kinship.assign (hcall facts) f.avoids_nothing target (fun _ hx v _ => hfree.bind hx v) v
    v.avoids_nothing

mutual

/-- What an assignment looks up is counted as read by its target. -/
theorem Moment.ofAssign_among (target : Expr) (hfree : f.Free facts target.stores) (v : Value)
    {s : Store} (hs : s.Has facts) :
    Among facts target.storeReads (ofAssign call f target v s) := by
  cases target with
  | tuple span ts | list span ts =>
    have hitems : Run.Preserves facts
        (do let vs ← Run.items v; Run.checkUnpack ts.length vs; return vs) :=
      ((Related.kinship.items v.avoids_nothing).bind fun vs _ =>
        (Kinship.checkUnpack ts.length vs).bind fun _ _ => .pure (P := anything) trivial).preserves
    exact .after hitems hs fun vs _ ht => Moment.ofAssignAll_among ts hfree vs ht
  | attr span o x => exact ofEval_among hcall f o hs
  | subscript span o i =>
    exact (ofEval_among hcall f o hs).append
      (.after (Run.eval_preserves hcall f o) hs fun _ _ ht => ofEval_among hcall f i ht)
  | _ => exact .nil

theorem Moment.ofAssignAll_among (ts : List Expr) (hfree : f.Free facts (Expr.storesAll ts))
    (vs : List Value) {s : Store} (hs : s.Has facts) :
    Among facts (Expr.storeReadsAll ts) (ofAssignAll call f ts vs s) := by
  cases ts with
  | nil => exact .nil
  | cons t ts =>
    cases vs with
    | nil => exact .nil
    | cons v vs =>
      have ht := hfree.mono (List.subset_append_left ..)
      exact (Moment.ofAssign_among t ht v hs).append
        (.after (Run.assign_respects hcall t ht v).preserves hs fun _ _ hu =>
          Moment.ofAssignAll_among ts (hfree.mono (List.subset_append_right ..)) vs hu)

end

theorem Moment.ofTargets_among (v : Value) (ts : List Expr)
    (hfree : f.Free facts (Expr.storesAll ts)) {s : Store} (hs : s.Has facts) :
    Among facts (Expr.storeReadsAll ts) (ofTargets call f v ts s) := by
  induction ts generalizing s with
  | nil => exact .nil
  | cons t ts ih =>
    have ht := hfree.mono (List.subset_append_left ..)
    exact (ofAssign_among hcall t ht v hs).append
      (.after (Run.assign_respects hcall t ht v).preserves hs fun _ _ hu =>
        ih (hfree.mono (List.subset_append_right ..)) hu)

theorem Moment.ofParams_among (ps : List (Param Expr)) {s : Store} (hs : s.Has facts) :
    Among facts (Param.reads ps) (ofParams call f ps s) := by
  induction ps generalizing s with
  | nil => exact .nil
  | cons p ps ih =>
    have hreads : Param.reads (p :: ps) = p.default?.elim [] Expr.reads ++ Param.reads ps := rfl
    rw [hreads, ofParams]
    split
    · next hnone =>
      rw [hnone]
      exact ih hs
    · next e hsome =>
      rw [hsome]
      exact (ofEval_among hcall f e hs).append
        (.after (Run.eval_preserves hcall f e) hs fun _ _ ht => ih ht)

/-- What a definition looks up by itself is read by its decorators and defaults. -/
theorem Moment.ofDefine_among (d : Definition) {s : Store} (hs : s.Has facts) :
    Among facts (Expr.readsAll d.decorators ++ Param.reads d.params) (ofDefine call f d s) :=
  (ofEvalAll_among hcall f d.decorators hs).append
    (.after (Related.kinship.evalAll (hcall facts) f.avoids_nothing d.decorators).preserves hs
      fun _ _ ht => ofParams_among hcall d.params ht)

end Assignments

/-! ## Statements -/

section Statements

variable {call : Caller} (hcall : call.Preserves) (rounds : Nat) {f : Frame}
include hcall

/-- Execution leaves all facts as they are that are not about names that the statements bind. -/
theorem Run.execAll_respects (b : List Stmt) (hfree : f.Free facts (Stmt.bindsAll b)) :
    Respects (Store.BothHave facts) (Flow.Avoids .nothing) (Run.execAll call rounds f b) := by
  have hready : f.Ready .empty (fun _ => False) .nothing facts (fun _ => True)
      ⟨fun _ => none, none, fun _ => none⟩ b :=
    ⟨f.avoids_nothing, ⟨fun _ hx => absurd trivial hx, fun _ hx => absurd trivial hx,
      fun _ _ hx => absurd trivial hx⟩, Stmt.resolvedAll_empty b,
      fun φ hφ => hfree φ (hφ.resolve_left id)⟩
  exact (Unrolls.refl b).execAll_matches hcall rounds (.inr rfl) hready

theorem Run.exec_preserves (st : Stmt) (hfree : f.Free facts st.binds) :
    Run.Preserves facts (Run.exec call rounds f st) := by
  intro s flow t hs hok
  have hfree' : f.Free facts (Stmt.bindsAll [st]) := by simpa [Stmt.bindsAll] using hfree
  have hall : Run.execAll call rounds f [st] s = .ok flow t := by
    have hlocating : Run.locating (fun _ => f.location st.span) (Run.exec call rounds f st) s =
        .ok flow t := by
      unfold Run.locating
      rw [hok]
    rw [Run.execAll, EStateM.bind_ok hlocating]
    cases flow <;> rfl
  exact (Run.execAll_respects hcall rounds [st] hfree').preserves hs hall

end Statements

/-! ## Moments -/

namespace Moment

/-- What is known of a moment of statements that are executed in a frame. -/
structure Sound (facts : Fact → Prop) (classes bound : List String) (f : Frame)
    (reads : List String) (m : Moment) : Prop where
  /-- The statements stand in these classes, and perhaps it happens in further ones within. -/
  within : classes <:+ m.classes
  /-- Apart from where names are bound, frames do not change. -/
  frame : m.frame = f.inside m.frame.locals
  /-- Only names that are counted as bound are bound. -/
  unbound : ∀ φ : Fact, φ.Unbound (· ∈ m.bound) m.frame.locals → φ.Holds m.store
  /-- Outside of further classes the frame is the same, and the names that the event is about are
  counted as read. -/
  own : m.classes = classes → m.frame = f ∧ m.bound = bound ∧ m.store.Has facts ∧
    m.event.names ⊆ reads

namespace Sound

variable {classes bound reads reads' : List String} {f : Frame} {m : Moment}

theorem mono (h : Sound facts classes bound f reads m) (hreads : reads ⊆ reads') :
    Sound facts classes bound f reads' m :=
  ⟨h.within, h.frame, h.unbound, fun heq =>
    ⟨(h.own heq).1, (h.own heq).2.1, (h.own heq).2.2.1, List.Subset.trans (h.own heq).2.2.2 hreads⟩⟩

/-- A moment in the body of a class is one of the statement. -/
theorem inside {name : String} {names : List String} {r : NamespaceRef} {facts' : Fact → Prop}
    (h : Sound facts' (name :: classes) names (f.inside r) reads' m) :
    Sound facts classes bound f reads m := by
  refine ⟨(List.suffix_cons name classes).trans h.within, h.frame, h.unbound, fun heq => ?_⟩
  have hlength := h.within.length_le
  rw [heq, List.length_cons] at hlength
  exact absurd hlength (by omega)

end Sound

variable {classes bound : List String} {f : Frame}

/-- Lookups in the frame itself. -/
theorem Among.inFrame {names : List String} {lookups : List (String × Store)}
    (hfacts : ∀ φ : Fact, φ.Unbound (· ∈ bound) f.locals → facts φ)
    (h : Among facts names lookups) :
    ∀ m ∈ inFrame classes bound f lookups, Sound facts classes bound f names m := by
  intro m hm
  obtain ⟨l, hl, rfl⟩ := List.mem_map.1 hm
  obtain ⟨hname, hs⟩ := h l hl
  exact ⟨List.suffix_rfl, rfl, fun φ hφ => hs φ (hfacts φ hφ),
    fun _ => ⟨rfl, rfl, hs, by simpa [Event.names] using hname⟩⟩

/-- Moments of a loop over items. -/
theorem forall_mem_ofItems {P : β → Prop} {body : Value → Run Flow}
    {ofBody : Value → Store → List β} (hbody : ∀ v, Run.Preserves facts (body v))
    (hof : ∀ v {t : Store}, t.Has facts → ∀ b ∈ ofBody v t, P b) (ms : List Run.Member) {s : Store}
    (hs : s.Has facts) : ∀ b ∈ ofItems body ofBody ms s, P b := by
  induction ms generalizing s with
  | nil => exact fun _ hb => nomatch hb
  | cons m ms ih =>
    have htake : Run.Preserves facts m.take := by
      cases m with
      | value v => exact (Respects.pure (P := anything) trivial).preserves
      | text t => exact (Related.kinship.newStr t).preserves
    refine forall_mem_after fun v t hok b hb => ?_
    have ht := htake hs hok
    rcases List.mem_append.1 hb with hb | hb
    · exact hof v ht b hb
    · refine forall_mem_after (fun flow u hok b hb => ?_) b hb
      have hu := hbody v ht hok
      cases flow with
      | next | cont => exact ih hu b hb
      | brk | ret _ => cases hb

/-- Moments of a loop under a test. -/
theorem forall_mem_ofRounds {P : β → Prop} {test : Run Bool} {body : Run Flow}
    {ofTest ofBody : Store → List β} (htest : Run.Preserves facts test)
    (hbody : Run.Preserves facts body) (hofTest : ∀ {t : Store}, t.Has facts → ∀ b ∈ ofTest t, P b)
    (hofBody : ∀ {t : Store}, t.Has facts → ∀ b ∈ ofBody t, P b) (rounds : Nat) {s : Store}
    (hs : s.Has facts) : ∀ b ∈ ofRounds test body ofTest ofBody rounds s, P b := by
  induction rounds generalizing s with
  | zero => exact fun _ hb => nomatch hb
  | succ rounds ih =>
    intro b hb
    rcases List.mem_append.1 hb with hb | hb
    · exact hofTest hs b hb
    · refine forall_mem_after (fun holds t hok b hb => ?_) b hb
      have ht := htest hs hok
      cases holds with
      | false => cases hb
      | true =>
        rcases List.mem_append.1 hb with hb | hb
        · exact hofBody ht b hb
        · refine forall_mem_after (fun flow u hok b hb => ?_) b hb
          have hu := hbody ht hok
          cases flow with
          | next | cont => exact ih hu b hb
          | brk | ret _ => cases hb

/-- Facts about a new namespace: it binds nothing. -/
theorem has_newNamespace {names : List String} {s : Store} (hs : s.Has facts) :
    (s.newNamespace .empty).2.Has fun φ =>
      facts φ ∨ φ.Unbound (· ∈ names) (s.newNamespace .empty).1 := by
  rintro φ (hφ | hφ)
  · exact (hs φ hφ).newNamespace .empty
  · refine ⟨?_, ?_⟩
    · simp [hφ.place, Store.newNamespace]
    · simp [hφ.place, hφ.value, Store.newNamespace, Store.bindings]

/-- In a new namespace names can be bound, although there are facts about them elsewhere. -/
theorem free_newNamespace {names : List String} {s : Store} (hs : s.Has facts) {g : Frame}
    (hg : g.locals = (s.newNamespace .empty).1) :
    g.Free (fun φ => facts φ ∨ φ.Unbound (· ∈ names) (s.newNamespace .empty).1) names := by
  rintro φ (hφ | hφ) hplace
  · have hlt := (hs φ hφ).1
    rw [hplace, hg] at hlt
    exact absurd hlt (Nat.lt_irrefl _)
  · exact hφ.name

section Execution

variable {call : Caller} (hcall : call.Preserves) (rounds : Nat)
include hcall

/-- A round of a loop over items. -/
theorem round_respects {target : Expr} (htarget : f.Free facts target.stores) {body : List Stmt}
    (hbody : f.Free facts (Stmt.bindsAll body)) (v : Value) :
    Respects (Store.BothHave facts) anything (do
      Run.assign call f target v
      Run.execAll call rounds f body) :=
  (Run.assign_respects hcall target htarget v).bind fun _ _ =>
    (Run.execAll_respects hcall rounds body hbody).anything

theorem eachItem_preserves {target : Expr} (htarget : f.Free facts target.stores) {body : List Stmt}
    (hbody : f.Free facts (Stmt.bindsAll body)) (ms : List Run.Member) :
    Run.Preserves facts (Run.eachItem (fun v => do
      Run.assign call f target v
      Run.execAll call rounds f body) ms) := by
  refine Respects.preserves (P := anything) (Matches.eachItem trivial (A := anything)
    (fun m _ => ?_) fun v _ => round_respects hcall rounds htarget hbody v)
  cases m with
  | value v => exact .pure trivial
  | text t => exact (Related.kinship.newStr t).anything

/-- The moments of an expression in front of what follows it. -/
theorem forall_mem_eval (hfacts : ∀ φ : Fact, φ.Unbound (· ∈ bound) f.locals → facts φ) (e : Expr)
    {names : List String} {α : Type} {x : Run α} (hx : Run.Preserves facts x) {s : Store}
    (hs : s.Has facts) {k : α → Store → List Moment}
    (hk : ∀ a {t : Store}, t.Has facts → ∀ m ∈ k a t, Sound facts classes bound f names m) :
    ∀ m ∈ inFrame classes bound f (ofEval call f e s) ++ after x s k,
      Sound facts classes bound f (e.reads ++ names) m := by
  refine List.forall_mem_append.2 ⟨fun m hm => ?_, forall_mem_after fun a t hok m hm => ?_⟩
  · exact ((ofEval_among hcall f e hs).inFrame hfacts m hm).mono (List.subset_append_left ..)
  · exact (hk a (hx hs hok) m hm).mono (List.subset_append_right ..)

mutual

/-- Every moment of a statement is as name analysis has it. -/
theorem ofExec_sound {facts : Fact → Prop} {classes bound : List String} {f : Frame}
    (hfacts : ∀ φ : Fact, φ.Unbound (· ∈ bound) f.locals → facts φ) (st : Stmt)
    (hfree : f.Free facts st.binds) {s : Store} (hs : s.Has facts) :
    ∀ m ∈ ofExec call rounds classes bound f st s, Sound facts classes bound f st.reads m := by
  cases st with
  | expr span e => exact (ofEval_among hcall f e hs).inFrame hfacts
  | assign span ts e =>
    refine Among.inFrame hfacts ((ofEval_among hcall f e hs).append ?_)
    exact .after (Run.eval_preserves hcall f e) hs fun v _ ht => ofTargets_among hcall v ts hfree ht
  | pass span | brk span | cont span => exact fun _ hm => nomatch hm
  | ret span value =>
    cases value with
    | none => exact fun _ hm => nomatch hm
    | some e => exact (ofEval_among hcall f e hs).inFrame hfacts
  | cond span test a b =>
    have hreads : Stmt.reads (.cond span test a b) =
        test.reads ++ (Stmt.readsAll a ++ Stmt.readsAll b) := by rw [Stmt.reads, List.append_assoc]
    rw [hreads]
    refine forall_mem_eval hcall hfacts test (Run.eval_preserves hcall f test) hs
      fun v t ht m hm => ?_
    split at hm
    · exact (ofExecAll_sound hfacts a (hfree.mono (List.subset_append_left ..)) ht m hm).mono
        (List.subset_append_left ..)
    · exact (ofExecAll_sound hfacts b (hfree.mono (List.subset_append_right ..)) ht m hm).mono
        (List.subset_append_right ..)
  | loop span test body =>
    have htest : Run.Preserves facts (do Run.isTruthy (← Run.eval call f test)) :=
      ((Related.kinship.eval (hcall facts) f.avoids_nothing test).bind fun v _ =>
        Related.kinship.isTruthy v).preserves
    refine forall_mem_ofRounds htest (Run.execAll_respects hcall rounds body hfree).preserves
      (fun ht m hm => ?_) (fun ht m hm => ?_) rounds hs
    · exact ((ofEval_among hcall f test ht).inFrame hfacts m hm).mono (List.subset_append_left ..)
    · exact (ofExecAll_sound hfacts body hfree ht m hm).mono (List.subset_append_right ..)
  | each span target iter body els =>
    have htarget : f.Free facts target.stores := hfree.mono fun x hx => by simp [Stmt.binds, hx]
    have hbody : f.Free facts (Stmt.bindsAll body) :=
      hfree.mono fun x hx => by simp [Stmt.binds, hx]
    have hels : f.Free facts (Stmt.bindsAll els) := hfree.mono (List.subset_append_right ..)
    have hreads : Stmt.reads (.each span target iter body els) = iter.reads ++
        (target.storeReads ++ Stmt.readsAll body ++ Stmt.readsAll els) := by simp [Stmt.reads]
    have hmembers : Run.Preserves facts (do Run.members (← Run.eval call f iter)) :=
      ((Related.kinship.eval (hcall facts) f.avoids_nothing iter).bind fun v hv =>
        Related.kinship.members hv).preserves
    rw [hreads]
    refine forall_mem_eval hcall hfacts iter hmembers hs fun ms t ht => ?_
    refine List.forall_mem_append.2 ⟨forall_mem_ofItems
      (fun v => (round_respects hcall rounds htarget hbody v).preserves)
      (fun v u hu => ?_) ms ht, forall_mem_after fun flow u hok m hm => ?_⟩
    · refine List.forall_mem_append.2 ⟨fun m hm => ?_, forall_mem_after fun _ w hok m hm => ?_⟩
      · exact ((ofAssign_among hcall target htarget v hu).inFrame hfacts m hm).mono
          fun x hx => by simp [hx]
      · have hw := (Run.assign_respects hcall target htarget v).preserves hu hok
        exact (ofExecAll_sound hfacts body hbody hw m hm).mono fun x hx => by simp [hx]
    · have hu := eachItem_preserves hcall rounds htarget hbody ms ht hok
      cases flow with
      | next | cont =>
        exact (ofExecAll_sound hfacts els hels hu m hm).mono (List.subset_append_right ..)
      | brk | ret _ => cases hm
  | define span name ds ps body =>
    refine List.forall_mem_cons.2 ⟨?_, fun m hm => ?_⟩
    · refine ⟨List.suffix_rfl, rfl, fun φ hφ => hs φ (hfacts φ hφ), fun _ => ⟨rfl, rfl, hs, ?_⟩⟩
      exact fun x hx => List.mem_append_right _ (List.mem_eraseDups.1 hx)
    · exact ((ofDefine_among hcall ⟨name, ds, ps, body⟩ hs).inFrame hfacts m hm).mono
        (List.subset_append_left ..)
  | class_ span name base body =>
    refine List.forall_mem_append.2 ⟨fun m hm => ?_, forall_mem_after fun r u hok m hm => ?_⟩
    · cases base with
      | none => cases hm
      | some e =>
        exact ((ofEval_among hcall f e hs).inFrame hfacts m hm).mono (List.subset_append_left ..)
    · -- The body binds its names in a new namespace, which there were no facts about.
      obtain ⟨_, t, hbase, hnew⟩ := EStateM.bind_eq_ok.1 hok
      obtain ⟨rfl, rfl⟩ : (t.newNamespace .empty).1 = r ∧ (t.newNamespace .empty).2 = u := by
        cases hnew
        exact ⟨rfl, rfl⟩
      have ht : t.Has facts :=
        (Related.kinship.checkBase (hcall facts) f.avoids_nothing name base).preserves hs hbase
      exact (ofExecAll_sound (fun φ hφ => .inr hφ) body (free_newNamespace ht rfl)
        (has_newNamespace ht) m hm).inside

theorem ofExecAll_sound {facts : Fact → Prop} {classes bound : List String} {f : Frame}
    (hfacts : ∀ φ : Fact, φ.Unbound (· ∈ bound) f.locals → facts φ) (b : List Stmt)
    (hfree : f.Free facts (Stmt.bindsAll b)) {s : Store} (hs : s.Has facts) :
    ∀ m ∈ ofExecAll call rounds classes bound f b s,
      Sound facts classes bound f (Stmt.readsAll b) m := by
  cases b with
  | nil => exact fun _ hm => nomatch hm
  | cons st ss =>
    have hst : f.Free facts st.binds := hfree.mono (List.subset_append_left ..)
    refine List.forall_mem_append.2 ⟨fun m hm => ?_, forall_mem_after fun flow t hok m hm => ?_⟩
    · exact (ofExec_sound hfacts st hst hs m hm).mono (List.subset_append_left ..)
    · have ht := Run.exec_preserves hcall rounds st hst hs hok
      cases flow with
      | next =>
        exact (ofExecAll_sound hfacts ss (hfree.mono (List.subset_append_right ..)) ht m hm).mono
          (List.subset_append_right ..)
      | brk | cont | ret _ => cases hm

end

end Execution

end Moment

end StagedScript
