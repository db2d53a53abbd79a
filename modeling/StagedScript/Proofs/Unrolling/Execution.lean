import StagedScript.Proofs.Unrolling.Simulation

/-!
# The execution of unrolled statements

A list of statements and what it is unrolled to end in the same way, where calls do: with the same
flow and in stores that differ by unrolling again.  The proof is an induction on how the second list
follows the first; the sight of the frame goes along.
-/

namespace StagedScript

/-- The result of a call holds nothing that is hidden. -/
def Flow.Avoids (h : Hidden) : Flow → Prop
  | .ret v => v.Avoids h
  | .next | .brk | .cont => True

open Run

theorem Matches.execAll_cons {R : Store → Store → Prop} {P : Flow → Prop} {call : Caller}
    {rounds : Nat} {f : Frame} {s s' : Stmt} {ss ss' : List Stmt} (hspan : s'.span = s.span)
    (hs : Matches R (fun a b => a = b ∧ P a) (exec call rounds f s) (exec call rounds f s'))
    (hss : Matches R (fun a b => a = b ∧ P a) (execAll call rounds f ss)
      (execAll call rounds f ss')) :
    Matches R (fun a b => a = b ∧ P a) (execAll call rounds f (s :: ss))
      (execAll call rounds f (s' :: ss')) := by
  rw [execAll, execAll, hspan]
  refine (hs.locating _).bind ?_
  rintro flow _ ⟨rfl, hflow⟩
  cases flow with
  | next => exact hss
  | ret v => exact .pure ⟨rfl, hflow⟩
  | brk => exact .pure ⟨rfl, hflow⟩
  | cont => exact .pure ⟨rfl, hflow⟩

variable {h : Hidden}

/-- A statement of expressions alone respects every kinship, where binding its names does. -/
theorem Kinship.exec_plain {R : Store → Store → Prop} (K : Kinship h R) {call : Caller}
    (hcall : call.Respects h R) (rounds : Nat) {f : Frame} (hf : f.Avoids h) {s : Stmt}
    (hs : s.isPlain = true)
    (hbind : ∀ x ∈ s.binds, ∀ v : Value, v.Avoids h → Respects R anything (Run.bind f x v)) :
    Respects R (Flow.Avoids h) (exec call rounds f s) := by
  cases s with
  | expr span e => exact (K.eval hcall hf e).discard.bind fun _ _ => .pure trivial
  | assign span ts e =>
    refine (K.eval hcall hf e).bind fun v hv => ?_
    refine Respects.bind (.forM fun t ht => K.assign hcall hf t (fun x hx => hbind x ?_) v hv)
      fun _ _ => .pure trivial
    simp only [Stmt.binds]
    clear hbind
    induction ts with
    | nil => simp at ht
    | cons t' ts ih =>
      rcases List.mem_cons.1 ht with rfl | ht
      · exact List.mem_append_left _ hx
      · exact List.mem_append_right _ (ih rfl ht)
  | pass span => exact .pure trivial
  | ret span value =>
    cases value with
    | none => exact .pure trivial
    | some e => exact (K.eval hcall hf e).bind fun v hv => .pure hv
  | brk span => exact .pure trivial
  | cont span => exact .pure trivial
  | cond _ _ _ _ | loop _ _ _ | each _ _ _ _ _ | define _ _ _ _ _ | class_ _ _ _ _ => cases hs

section

variable (known : Table Extent) (base : Fact → Prop) (h : Hidden)

/-- The frame is ready for statements: it leads to nothing hidden, shows what their loops need, and
the facts are not about names that the statements bind. -/
structure Frame.Ready (facts : Fact → Prop) (hidden : String → Prop) (σ : Sight) (f : Frame)
    (b : List Stmt) : Prop where
  avoids : f.Avoids h
  sight : f.Shows base facts hidden σ
  resolved : Stmt.ResolvedAll known hidden σ b
  free : ∀ φ, base φ ∨ facts φ → φ.place = f.locals → φ.name ∉ Stmt.bindsAll b

end

variable {known : Table Extent} {base : Fact → Prop} {facts : Fact → Prop}
  {hidden : String → Prop} {σ : Sight} {f : Frame} {b : List Stmt}

namespace Frame.Ready

theorem part (hf : f.Ready known base h facts hidden σ b) {b' : List Stmt}
    (hresolved : Stmt.ResolvedAll known hidden σ b')
    (hbinds : ∀ x ∈ Stmt.bindsAll b', x ∈ Stmt.bindsAll b) :
    f.Ready known base h facts hidden σ b' :=
  ⟨hf.avoids, hf.sight, hresolved, fun φ hφ hplace hx => hf.free φ hφ hplace (hbinds _ hx)⟩

end Frame.Ready

/-- A name that is not hidden has no value in a namespace. -/
structure Fact.Unbound (hidden : String → Prop) (r : NamespaceRef) (φ : Fact) : Prop where
  place : φ.place = r
  value : φ.value? = none
  name : ¬ hidden φ.name

/-- The body of a class is executed in a namespace of its own, in which it alone binds names. -/
theorem Frame.Ready.inside {span : Span} {name : String} {base? : Option Expr}
    {body ss : List Stmt}
    (hf : f.Ready known base h facts hidden σ (.class_ span name base? body :: ss))
    (hresolved : Stmt.ResolvedAll known (fun x => hidden x ∨ x ∈ Stmt.bindsAll body) σ.inClass body)
    {r : NamespaceRef} (hr : ¬ h.namespaces r) (hfresh : ∀ φ, base φ ∨ facts φ → φ.place ≠ r) :
    (f.inside r).Ready known base h
      (fun φ => facts φ ∨ φ.Unbound (fun x => hidden x ∨ x ∈ Stmt.bindsAll body) r)
      (fun x => hidden x ∨ x ∈ Stmt.bindsAll body) σ.inClass body where
  avoids := ⟨hr, hf.avoids.globals, hf.avoids.captured⟩
  sight := {
    here := fun x hx => Or.inr (Or.inr ⟨rfl, rfl, hx⟩)
    around := fun x hx => hf.sight.around x fun hx' => hx (Or.inl hx')
    beyond := fun x v hx => hf.sight.beyond x v fun hx' => hx (Or.inl hx') }
  resolved := hresolved
  free := by
    rintro φ (hφ | hφ | hφ) hplace
    · exact absurd hplace (hfresh φ (Or.inl hφ))
    · exact absurd hplace (hfresh φ (Or.inr hφ))
    · exact fun hx => hφ.name (Or.inr hx)

/-! ## The rounds of a loop -/

/-- Looking up a name that is in sight leaves the store as it is. -/
theorem Run.lookup_bind {t : Store} {x : String} {v : Value} (hfind : f.find? t x = some v)
    {α : Type} (k : Value → Run α) : (lookup f x >>= k) t = k v t := by
  have hlookup : lookup f x t = .ok v t := by
    have hview : view (f.find? · x) t = .ok (some v) t := by
      rw [← hfind]
      rfl
    unfold lookup
    rw [EStateM.bind_ok hview]
    rfl
  change EStateM.bind (lookup f x) k t = _
  unfold EStateM.bind
  rw [hlookup]

/-- An item that is looked up and indexed is the one that the loop meets. -/
theorem Run.eval_item (call : Caller) {t : Store} {x : String} {v : Value}
    (hfind : f.find? t x = some v) {n i : Nat} (hv : v.Counts n) (hn : n < lengthLimit)
    (hi : i < n) {m : Member} (hm : v.fixedMembers[i]? = some m) (span : Span) :
    eval call f (.subscript span (.name span x) (.int span (Int64.ofNat i))) t = m.take t := by
  rw [eval, eval, eval, lookup_bind hfind, pure_bind, hv.getItem_eq hn hi hm]

/-- How the body of a loop ends that is to be unrolled. -/
def Flow.Stays (h : Hidden) (flow : Flow) : Prop :=
  flow.Avoids h ∧ (flow = .next ∨ ∃ v, flow = .ret v)

/-- How a loop without an `else` clause ends, given how its rounds do. -/
def Flow.afterRounds : Flow → Flow
  | .ret v => .ret v
  | .next | .brk | .cont => .next

/-- What a loop does after a round. -/
def Flow.nextRound (rest : Run Flow) : Flow → Run Flow
  | .next | .cont => rest
  | .brk => return .brk
  | .ret v => return .ret v

theorem Run.eachItem_cons (body : Value → Run Flow) (m : Member) (ms : List Member) :
    eachItem body (m :: ms) =
      m.take >>= fun v => body v >>= Flow.nextRound (eachItem body ms) := by
  rw [eachItem]
  congr
  funext v
  congr
  funext flow
  cases flow <;> rfl

section Rounds

variable {R : Store → Store → Prop} {call : Caller} {rounds : Nat} {span : Span} {target : Expr}
  {x : String} {v : Value} {n : Nat} {body body' : List Stmt}

/-- The start of a round: the item is taken and assigned. -/
theorem Matches.take (hfind : ∀ s t, R s t → f.find? t x = some v) (hv : v.Counts n)
    (hn : n < lengthLimit) {m : Member} (hm : Respects R (Value.Avoids h) m.take)
    (hassign : ∀ w : Value, w.Avoids h → Respects R anything (assign call f target w)) {i : Nat}
    (hi : i < n) (hitem : v.fixedMembers[i]? = some m) :
    Matches R (fun _ flow => flow = .next) (do assign call f target (← m.take))
      (exec call rounds f (Unroll.take span target x i)) := by
  intro s t hst
  have hexec : exec call rounds f (Unroll.take span target x i) t =
      (do assign call f target (← m.take); return .next : Run Flow) t := by
    unfold Unroll.take
    rw [exec]
    change EStateM.bind (eval call f _) _ t = EStateM.bind m.take _ t
    unfold EStateM.bind
    rw [eval_item call (hfind s t hst) hv hn hi hitem]
    simp [List.forM_cons, List.forM_nil]
  have hround : Respects R anything (do assign call f target (← m.take) : Run Unit) :=
    hm.bind hassign
  rw [hexec, ← bind_assoc]
  exact hround.bind_pure_matches s t hst

/-- A loop over the items from one on matches the rounds for these items. -/
theorem Matches.roundsFrom (hfind : ∀ s t, R s t → f.find? t x = some v) (hv : v.Counts n)
    (hn : n < lengthLimit) (hitems : ∀ m ∈ v.fixedMembers, Respects R (Value.Avoids h) m.take)
    (hassign : ∀ w : Value, w.Avoids h → Respects R anything (assign call f target w))
    (hbody : Matches R (fun a b => a = b ∧ a.Stays h) (execAll call rounds f body)
      (execAll call rounds f body')) {i k : Nat} (hik : i + k = n) :
    Matches R (fun a b => a = b ∧ a.Stays h)
      (Run.locating (fun _ => f.location span) (Flow.afterRounds <$>
        Run.eachItem (fun w => do assign call f target w; execAll call rounds f body)
          (v.fixedMembers.drop i)))
      (execAll call rounds f (Unroll.roundsFrom span target x body' i k)) := by
  induction k generalizing i with
  | zero =>
    have hlen := hv.length_fixedMembers
    rw [List.drop_eq_nil_of_le (by omega)]
    exact .pure ⟨rfl, trivial, Or.inl rfl⟩
  | succ k ih =>
    have hi : i < v.fixedMembers.length := by
      rw [hv.length_fixedMembers]
      omega
    obtain ⟨m, hm⟩ : ∃ m, v.fixedMembers[i]? = some m := ⟨_, List.getElem?_eq_getElem hi⟩
    have hdrop : v.fixedMembers.drop i = m :: v.fixedMembers.drop (i + 1) := by
      rw [List.drop_eq_getElem_cons hi]
      rw [List.getElem?_eq_getElem hi] at hm
      rw [Option.some.inj hm]
    have htake : Matches R (fun _ flow => flow = .next) _
        (exec call rounds f (Unroll.take span target x i)) :=
      Matches.take hfind hv hn (hitems m (List.mem_of_getElem? hm)) hassign (by omega) hm
    -- The loop is its first round, whose body locates its errors, and the loop from there on.
    rw [hdrop, Run.eachItem_cons, map_bind]
    simp only [bind_assoc, map_bind]
    rw [← bind_assoc, Run.locating_bind, Unroll.roundsFrom, execAll]
    refine (htake.locating _).bind ?_
    rintro _ _ rfl
    dsimp only
    rw [Run.locating_bind, Run.locating_of_located _ (located_execAll _ _ _ _), execAll_append]
    refine hbody.bind ?_
    rintro flow _ ⟨rfl, havoids, rfl | ⟨w, rfl⟩⟩
    · exact ih (by omega)
    · exact .pure ⟨rfl, havoids, Or.inr ⟨w, rfl⟩⟩

end Rounds

/-! ## All statements -/

theorem Frame.Ready.bind (hf : f.Ready known base h facts hidden σ b) {known' : Table Extent}
    {x : String} (hx : x ∈ Stmt.bindsAll b) {v : Value} (hv : v.Avoids h) :
    Respects (Related known' base h facts) anything (Run.bind f x v) :=
  Related.bind hv fun φ hφ hplace hne => hf.free φ hφ hplace (hne ▸ hx)

section

variable {call : Caller} (hcall : ∀ facts, call.Respects h (Related known base h facts))
  (rounds : Nat)
include hcall

/-- The loop over a known name and its rounds. -/
theorem Frame.Ready.rounds_matches {known' : Table Extent} {span at_ : Span} {target : Expr}
    {x : String} {n : Nat} {body body' ss : List Stmt}
    (hf : f.Ready known' base h facts hidden σ (.each span target (.name at_ x) body [] :: ss))
    (hx : known'.get? x = some (.sized n))
    (hbody : Matches (Related known base h facts) (fun a b => a = b ∧ a.Avoids h)
      (execAll call rounds f body) (execAll call rounds f body')) :
    Matches (Related known base h facts) (fun a b => a = b ∧ a.Avoids h)
      (Run.locating (fun _ => f.location span)
        (exec call rounds f (.each span target (.name at_ x) body [])))
      (execAll call rounds f (Unroll.rounds span target x n body')) := by
  have K : Kinship h (Related known base h facts) := Related.kinship
  obtain ⟨⟨hloop, -, -⟩, -⟩ := hf.resolved
  obtain ⟨hhidden, ⟨v, hv, hcounts, hn⟩, c, hc, hplaced⟩ :=
    hloop x n (by simp [Unroll.known?, hx])
  have hfind {s t : Store} (hst : Related known base h facts s t) : f.find? s x = some v :=
    hf.sight.find? hst.facts hhidden hv
  have hfind' {s t : Store} (hst : Related known base h facts s t) : f.find? t x = some v := by
    have hsame : f.find? t x = f.find? s x := by rw [hst.eq]; rfl
    rw [hsame, hfind hst]
  -- No control statement of the body is about the loop, so its rounds can stand alone.
  have hstays : Matches (Related known base h facts) (fun a b => a = b ∧ a.Stays h)
      (execAll call rounds f body) (execAll call rounds f body') := by
    refine (hbody.and (execAll_fits call rounds f c body hplaced)).mono ?_
    rintro flow _ ⟨⟨rfl, havoids⟩, hfits⟩
    exact ⟨rfl, havoids, hfits.next_or_ret hc⟩
  intro s t hst
  have hexec : exec call rounds f (.each span target (.name at_ x) body []) s =
      (Flow.afterRounds <$> Run.eachItem
        (fun w => do assign call f target w; execAll call rounds f body) v.fixedMembers) s := by
    rw [exec, eval, lookup_bind (hfind hst), hcounts.members_eq, pure_bind, map_eq_pure_bind]
    refine congrFun (bind_congr fun flow => ?_) s
    cases flow <;> rfl
  have hvalue : v.Avoids h := hf.avoids.find? hst.avoids (hfind hst)
  have hitems (m : Member) (hm : m ∈ v.fixedMembers) :
      Respects (Related known base h facts) (Value.Avoids h) m.take :=
    K.take (hvalue.fixedMembers m hm)
  have hassign (w : Value) (hw : w.Avoids h) :
      Respects (Related known base h facts) anything (assign call f target w) :=
    K.assign (hcall _) hf.avoids target
      (fun y hy u hu => hf.bind (by simp [Stmt.bindsAll, Stmt.binds, hy]) hu) w hw
  have hrounds : Outcome _ _ (Run.locating (fun _ => f.location span) _ s) _ :=
    Matches.roundsFrom (fun _ _ => hfind') hcounts hn hitems hassign hstays (Nat.zero_add n) s t hst
  rw [List.drop_zero] at hrounds
  rw [Unroll.rounds_eq]
  unfold Run.locating at hrounds ⊢
  rw [hexec]
  exact hrounds.mono (fun _ _ hst => hst) fun _ _ hab => ⟨hab.1, hab.2.1⟩

/-- The definition of a function and the same with its loops unrolled. -/
theorem Frame.Ready.define_matches {known' : Table Extent}
    (hknown : known' = known ∨ known' = .empty) {span : Span} {name : String} {ds : List Expr}
    {ps : List (Param Expr)} {body body' ss : List Stmt}
    (hf : f.Ready known' base h facts hidden σ (.define span name ds ps body :: ss))
    (hb : Unrolls known' body body') :
    Matches (Related known base h facts) (fun a b => a = b ∧ a.Avoids h)
      (exec call rounds f (.define span name ds ps body))
      (exec call rounds f (.define span name ds ps body')) := by
  have K : Kinship h (Related known base h facts) := Related.kinship
  obtain ⟨hbody, -⟩ := hf.resolved
  have hfree := hb.freeNames name ds ps
  have hcapture : Respects (Related known base h facts)
      (fun t => t.Avoids h ∧ ∀ x, ¬ hidden x → some (t.get? x) =
        (σ.inFunction (Definition.freeNames ⟨name, ds, ps, body⟩)).around?.map (· x))
      (Run.view (f.capture · (Definition.freeNames ⟨name, ds, ps, body⟩))) := by
    refine .view fun s t hst => ⟨by rw [hst.eq]; rfl, hf.avoids.capture hst.avoids _, ?_⟩
    exact fun x hx => hf.sight.capture hst.facts _ hx
  refine Matches.bind (P := fun v w => v = w ∧ v.Avoids h) ?_ ?_
  · unfold Run.define
    dsimp only
    rw [hfree]
    refine (K.evalAll (hcall _) hf.avoids ds).bind_matches fun decorators hds => ?_
    refine (K.evalParams (hcall _) hf.avoids ps).bind_matches fun params hps => ?_
    obtain ⟨hnames, hparams⟩ := hps
    refine hcapture.bind_matches fun captured ⟨hcaptured, hsight⟩ => ?_
    refine (Related.newFunction ?_ ⟨hparams, hcaptured, hf.avoids.globals⟩).bind ?_
    · rcases hknown with rfl | rfl
      · exact .unrolled hb _ _ {
          resolved := hbody
          params := fun x hx => Or.inr (Or.inl (hnames ▸ hx))
          binds := fun x hx => Or.inr (Or.inr hx)
          here := fun _ => rfl
          around := fun x hx => hsight x fun hx' => hx (Or.inl hx')
          beyond := fun x v hx => hf.sight.beyond x v fun hx' => hx (Or.inl hx') }
      · rw [hb.eq_of_empty]
        exact .same _
    · rintro r _ ⟨rfl, hr⟩
      exact K.decorate (hcall _) hds hr
  · rintro v _ ⟨rfl, hv⟩
    exact (hf.bind (List.mem_append_left _ (by simp [Stmt.binds])) hv).bind_matches
      fun _ _ => .pure ⟨rfl, trivial⟩

/-- A class and the same with its loops unrolled. -/
theorem Frame.Ready.class_matches {known' : Table Extent}
    {span : Span} {name : String} {base? : Option Expr} {body body' ss : List Stmt}
    (hf : f.Ready known' base h facts hidden σ (.class_ span name base? body :: ss))
    (hb : Unrolls known' body body')
    (hbody : ∀ {facts hidden σ f}, f.Ready known' base h facts hidden σ body →
      Matches (Related known base h facts) (fun a b => a = b ∧ a.Avoids h)
        (execAll call rounds f body) (execAll call rounds f body')) :
    Matches (Related known base h facts) (fun a b => a = b ∧ a.Avoids h)
      (exec call rounds f (.class_ span name base? body))
      (exec call rounds f (.class_ span name base? body')) := by
  have K {facts : Fact → Prop} : Kinship h (Related known base h facts) := Related.kinship
  obtain ⟨hresolved, -⟩ := hf.resolved
  refine (K.checkBase (hcall _) hf.avoids name base?).bind_matches fun _ _ => ?_
  refine Related.newNamespace Table.avoids_empty
    (Fact.Unbound fun x => hidden x ∨ x ∈ Stmt.bindsAll body)
    (fun r φ hφ => ⟨hφ.place, hφ.value.symm⟩)
    (fun r hr hfresh => hbody (hf.inside hresolved hr hfresh)) ?_
  rintro r hr flow _ ⟨rfl, hflow⟩
  cases flow with
  | next =>
    have hbindings : Respects (Related known base h facts) (Table.Avoids h)
        (Run.view (·.bindings r)) :=
      K.view (fun _ _ => rfl) fun s hs => hs.bindings hr
    rw [hb.docstring?_eq]
    refine hbindings.bind_matches fun t ht => ?_
    refine (K.newRecordType name _ ht).bind_matches fun v hv => ?_
    exact (hf.bind (List.mem_append_left _ (by simp [Stmt.binds])) hv).bind_matches
      fun _ _ => .pure ⟨rfl, trivial⟩
  | ret v => exact .pure ⟨rfl, hflow⟩
  | brk => exact .pure ⟨rfl, trivial⟩
  | cont => exact .pure ⟨rfl, trivial⟩

/-- Statements and what they are unrolled to are executed alike. -/
theorem Unrolls.execAll_matches {known' : Table Extent} (hknown : known' = known ∨ known' = .empty)
    {b b' : List Stmt} (hb : Unrolls known' b b') {facts : Fact → Prop} {hidden : String → Prop}
    {σ : Sight} {f : Frame} (hf : f.Ready known' base h facts hidden σ b) :
    Matches (Related known base h facts) (fun a b => a = b ∧ a.Avoids h)
      (execAll call rounds f b) (execAll call rounds f b') := by
  have K {facts : Fact → Prop} : Kinship h (Related known base h facts) := Related.kinship
  induction hb generalizing facts hidden σ f with
  | nil => exact .pure ⟨rfl, trivial⟩
  | @plain s ss ss' hs _ ih =>
    obtain ⟨-, hss⟩ := hf.resolved
    refine .execAll_cons rfl (K.exec_plain (hcall _) rounds hf.avoids hs fun x hx v hv => ?_)
      (ih (hf.part hss fun x hx => List.mem_append_right _ hx))
    exact hf.bind (List.mem_append_left _ hx) hv
  | @cond span test a a' e e' ss ss' _ _ _ iha ihe ih =>
    obtain ⟨⟨ha, he⟩, hss⟩ := hf.resolved
    refine .execAll_cons rfl ?_ (ih (hf.part hss fun x hx => List.mem_append_right _ hx))
    refine (K.eval (hcall _) hf.avoids test).bind_matches fun v _ => ?_
    refine (K.isTruthy v).bind_matches fun holds _ => ?_
    split
    · exact iha (hf.part ha fun x hx => by simp [Stmt.bindsAll, Stmt.binds, hx])
    · exact ihe (hf.part he fun x hx => by simp [Stmt.bindsAll, Stmt.binds, hx])
  | @loop span test body body' ss ss' _ _ ihb ih =>
    obtain ⟨hbody, hss⟩ := hf.resolved
    refine .execAll_cons rfl ?_ (ih (hf.part hss fun x hx => List.mem_append_right _ hx))
    have htest : Respects (Related known base h facts) anything
        (do isTruthy (← eval call f test)) :=
      (K.eval (hcall _) hf.avoids test).bind fun v _ => K.isTruthy v
    refine .whileHolds (P := Flow.Avoids h) trivial (fun _ hv => hv) htest ?_ rounds
    exact ihb (hf.part hbody fun x hx => List.mem_append_left _ hx)
  | @each span target iter body body' els els' ss ss' _ _ _ _ ihb ihe ih =>
    obtain ⟨⟨-, hbody, hels⟩, hss⟩ := hf.resolved
    refine .execAll_cons rfl ?_ (ih (hf.part hss fun x hx => List.mem_append_right _ hx))
    have hround (w : Value) (hw : w.Avoids h) :
        Matches (Related known base h facts) (fun a b => a = b ∧ a.Avoids h)
          (do assign call f target w; execAll call rounds f body)
          (do assign call f target w; execAll call rounds f body') := by
      refine (K.assign (hcall _) hf.avoids target (fun x hx v hv => hf.bind ?_ hv) w
        hw).bind_matches fun _ _ =>
        ihb (hf.part hbody fun x hx => by simp [Stmt.bindsAll, Stmt.binds, hx])
      simp [Stmt.bindsAll, Stmt.binds, hx]
    have helse := ihe (hf.part hels fun x hx => by simp [Stmt.bindsAll, Stmt.binds, hx])
    refine (K.eval (hcall _) hf.avoids iter).bind_matches fun v hv => ?_
    refine (K.members hv).bind_matches fun ms hms => ?_
    refine (Matches.eachItem (P := Flow.Avoids h) trivial (fun m hm => K.take (hms m hm))
      hround).bind ?_
    rintro flow _ ⟨rfl, hflow⟩
    cases flow with
    | next => exact helse
    | ret v => exact .pure ⟨rfl, hflow⟩
    | brk => exact .pure ⟨rfl, trivial⟩
    | cont => exact helse
  | @rounds span at_ target x n body body' ss ss' hx _ _ _ _ ihb ih =>
    obtain ⟨⟨-, hbody, -⟩, hss⟩ := hf.resolved
    rw [execAll, execAll_append]
    refine (hf.rounds_matches hcall rounds hx (ihb (hf.part hbody fun x hx => ?_))).bind ?_
    · simp [Stmt.bindsAll, Stmt.binds, hx]
    · rintro flow _ ⟨rfl, hflow⟩
      cases flow with
      | next => exact ih (hf.part hss fun x hx => List.mem_append_right _ hx)
      | ret v => exact .pure ⟨rfl, hflow⟩
      | brk => exact .pure ⟨rfl, hflow⟩
      | cont => exact .pure ⟨rfl, hflow⟩
  | @define span name ds ps body body' ss ss' hb _ _ ih =>
    obtain ⟨-, hss⟩ := hf.resolved
    exact .execAll_cons rfl (hf.define_matches hcall rounds hknown hb)
      (ih (hf.part hss fun x hx => List.mem_append_right _ hx))
  | @class_ span name base? body body' ss ss' hb _ ihb ih =>
    obtain ⟨-, hss⟩ := hf.resolved
    exact .execAll_cons rfl (hf.class_matches hcall rounds hb ihb)
      (ih (hf.part hss fun x hx => List.mem_append_right _ hx))

end

end StagedScript
