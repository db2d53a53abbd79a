import StagedScript.Proofs.Basic
import StagedScript.Proofs.Comparing.Order
import StagedScript.Run.Builtin

/-!
# The least and the greatest

`min` and `max` go through the elements once, and compare each of them with the best one so far.
That this is enough rests on the order: what is beyond a value is beyond all that is not beyond the
value.  The best one so far is the first of all that no other is beyond, and an element that cannot
be compared with it is refused.
-/

namespace StagedScript

namespace Store

/-- The first of the elements that no element is beyond: none is less than the first of the least,
and none is greater than the first of the greatest. -/
def firstExtreme? (s : Store) (want : Ordering) (vs : List Value) : Option Value :=
  vs.find? fun e => vs.all fun v => s.compare v e != .order want

/-- Among the elements there is one that has no order with the first extreme of those in front of
it. -/
def Unordered (s : Store) (want : Ordering) (vs : List Value) : Prop :=
  ∃ before v after e, vs = before ++ v :: after ∧ s.firstExtreme? want before = some e ∧
    s.compare v e = .unordered

variable {s : Store} {a b c e v : Value} {vs before after : List Value} {want o : Ordering}

/-! ## What is beyond what -/

theorem swap_ne (hwant : want ≠ .eq) : want.swap ≠ want := by
  cases want with
  | eq => exact absurd rfl hwant
  | _ => exact Ordering.noConfusion

theorem Discrete.compare_self (ha : s.Discrete a) (hwant : want ≠ .eq) :
    s.compare a a ≠ .order want := by
  intro h
  have hswap := compare_swap ha ha
  rw [h] at hswap
  exact swap_ne hwant (Comparison.order.inj hswap).symm

/-- What is beyond a value is beyond whatever is not beyond the value. -/
theorem Discrete.compare_trans (ha : s.Discrete a) (hb : s.Discrete b) (hc : s.Discrete c)
    (hwant : want ≠ .eq) (hab : s.compare a b = .order want) (hcb : s.compare c b = .order o)
    (ho : o ≠ want) : s.compare a c = .order want := by
  have hba : s.compare b a = .order want.swap := by rw [compare_swap ha hb, hab]; rfl
  have hbc : s.compare b c = .order o.swap := by rw [compare_swap hc hb, hcb]; rfl
  cases want with
  | eq => exact absurd rfl hwant
  | lt =>
    have hle : o.swap.isLE := by
      cases o with
      | lt => exact absurd rfl ho
      | _ => rfl
    exact composes_compare ha hb hc _ _ hab hbc rfl hle
  | gt =>
    -- The greater one comes last, so that the order is read from the other end.
    have hle : o.isLE := by
      cases o with
      | gt => exact absurd rfl ho
      | _ => rfl
    have hca : s.compare c a = .order (o.then .lt) :=
      composes_compare hc hb ha _ _ hcb hba hle rfl
    rw [compare_swap hc ha, hca]
    cases o with
    | gt => cases hle
    | _ => rfl

/-! ## The best so far -/

/-- The best of the elements so far: it is beyond those in front of it, and those behind it are not
beyond it. -/
structure BestSoFar (s : Store) (want : Ordering) (before : List Value) (best : Value)
    (after : List Value) :
    Prop where
  discrete : ∀ v ∈ before ++ best :: after, s.Discrete v
  before : ∀ v ∈ before, s.compare best v = .order want
  after : ∀ v ∈ after, ∃ o, s.compare v best = .order o ∧ o ≠ want

namespace BestSoFar

variable {best : Value}

theorem single (hv : s.Discrete v) : s.BestSoFar want [] v [] where
  discrete := by simpa using hv
  before := by simp
  after := by simp

/-- An element that is not beyond the best one goes behind it. -/
theorem keep (h : s.BestSoFar want before best after) (hv : s.Discrete v)
    (hvbest : s.compare v best = .order o) (ho : o ≠ want) :
    s.BestSoFar want before best (after ++ [v]) where
  discrete w hw := by
    rw [← List.cons_append, ← List.append_assoc, List.mem_append, List.mem_singleton] at hw
    rcases hw with hw | rfl
    · exact h.discrete w hw
    · exact hv
  before := h.before
  after w hw := by
    rcases List.mem_append.1 hw with hw | hw
    · exact h.after w hw
    · cases List.mem_singleton.1 hw
      exact ⟨o, hvbest, ho⟩

section

variable (h : s.BestSoFar want before best after) (hwant : want ≠ .eq)
include h hwant

/-- No element is beyond the best one. -/
theorem not_beyond (hv : v ∈ before ++ best :: after) : s.compare v best ≠ .order want := by
  have hbest := h.discrete best (by simp)
  rcases List.mem_append.1 hv with hbefore | hrest
  · rw [compare_swap hbest (h.discrete v hv), h.before v hbefore]
    exact fun heq => swap_ne hwant (Comparison.order.inj heq)
  · rcases List.mem_cons.1 hrest with rfl | hafter
    · exact hbest.compare_self hwant
    · obtain ⟨o, ho, hne⟩ := h.after v hafter
      rw [ho]
      exact fun heq => hne (Comparison.order.inj heq)

theorem firstExtreme?_eq : s.firstExtreme? want (before ++ best :: after) = some best := by
  refine List.find?_eq_some_iff_append.2 ⟨?_, before, after, rfl, fun v hv => ?_⟩
  · rw [List.all_eq_true]
    exact fun v hv => bne_iff_ne.2 (h.not_beyond hwant hv)
  · rw [Bool.not_eq_true', ← Bool.not_eq_true, List.all_eq_true]
    intro hall
    exact bne_iff_ne.1 (hall best (by simp)) (h.before v hv)

/-- An element that is beyond the best one is beyond all elements so far. -/
theorem replace (hv : s.Discrete v) (hvbest : s.compare v best = .order want) :
    s.BestSoFar want (before ++ best :: after) v [] where
  discrete w hw := by
    rcases List.mem_append.1 hw with hw | hw
    · exact h.discrete w hw
    · cases List.mem_singleton.1 hw
      exact hv
  before w hw := by
    have hbest := h.discrete best (by simp)
    have hw' := h.discrete w hw
    rcases List.mem_append.1 hw with hbefore | hrest
    · have hswap : s.compare w best = .order want.swap := by
        rw [compare_swap hbest hw', h.before w hbefore]
        rfl
      exact hv.compare_trans hbest hw' hwant hvbest hswap (swap_ne hwant)
    · rcases List.mem_cons.1 hrest with rfl | hafter
      · exact hvbest
      · obtain ⟨o, ho, hne⟩ := h.after w hafter
        exact hv.compare_trans hbest hw' hwant hvbest ho hne
  after := by simp

end

end BestSoFar

/-- Where all elements have an order, each of them has one with the first extreme of those in front
of it. -/
theorem not_unordered_of_pairwise (hvs : ∀ v ∈ vs, s.Discrete v)
    (h : vs.Pairwise fun v w => s.compare v w ≠ .unordered) : ¬ s.Unordered want vs := by
  rintro ⟨before, v, after, e, rfl, he, hnone⟩
  have hmem := List.mem_of_find?_eq_some he
  have hordered := (List.pairwise_append.1 h).2.2 e hmem v (by simp)
  rw [compare_swap (hvs v (by simp)) (hvs e (by simp [hmem])), hnone] at hordered
  exact hordered rfl

end Store

namespace Run

open Store

variable {s t : Store} {op : CompareOp} {want o : Ordering} {best e v : Value}
  {vs ws before after : List Value}

/-! ## One element after the other -/

theorem extreme_of_order (h : s.compare v best = .order o) :
    extreme op want best (v :: vs) s = extreme op want (if o = want then v else best) vs s := by
  rw [extreme, EStateM.bind_ok (order?_of_order h)]

theorem extreme_of_unordered (h : s.compare v best = .unordered) :
    extreme op want best (v :: vs) s =
      .error (.error ⟨none, .typing (.unordered op.text (s.typeName v) (s.typeName best))⟩) s := by
  rw [extreme, EStateM.bind_ok (order?_of_unordered h)]
  rfl

/-- A run through elements that come behind others, the best one of which is known: either all of
them have an order with the best one so far, and the result is the first extreme of all, or one of
them has none. -/
theorem extreme_cases (op : CompareOp) (hbest : s.BestSoFar want before best after)
    (hwant : want ≠ .eq) (hvs : ∀ v ∈ vs, s.Discrete v) :
    (∃ e, s.firstExtreme? want (before ++ best :: after ++ vs) = some e ∧
      extreme op want best vs s = .ok e s) ∨
    ∃ front v rest e, vs = front ++ v :: rest ∧
      s.firstExtreme? want (before ++ best :: after ++ front) = some e ∧
      s.compare v e = .unordered ∧
      extreme op want best vs s =
        .error (.error ⟨none, .typing (.unordered op.text (s.typeName v) (s.typeName e))⟩) s := by
  induction vs generalizing before best after with
  | nil => exact .inl ⟨best, by rw [List.append_nil, hbest.firstExtreme?_eq hwant], rfl⟩
  | cons v vs ih =>
    obtain ⟨hv, hvs⟩ := List.forall_mem_cons.1 hvs
    cases hcompare : s.compare v best with
    | endless =>
      have hbest := hbest.discrete best (by simp)
      exact absurd hcompare (hv.acyclic.compare_ne_endless hbest.acyclic)
    | unordered =>
      refine .inr ⟨[], v, vs, best, rfl, ?_, hcompare, extreme_of_unordered hcompare⟩
      rw [List.append_nil, hbest.firstExtreme?_eq hwant]
    | order o =>
      rw [extreme_of_order hcompare]
      obtain ⟨next, hnext⟩ : ∃ next, next = if o = want then v else best := ⟨_, rfl⟩
      rw [← hnext]
      have hstep : ∃ before' after', before' ++ next :: after' = before ++ best :: after ++ [v] ∧
          s.BestSoFar want before' next after' := by
        split_ifs at hnext with ho <;> subst hnext
        · exact ⟨_, [], rfl, hbest.replace hwant hv (ho ▸ hcompare)⟩
        · exact ⟨before, after ++ [v], by simp, hbest.keep hv hcompare ho⟩
      obtain ⟨before', after', hsame, hbest'⟩ := hstep
      have hshift (ws : List Value) :
          before ++ best :: after ++ v :: ws = before' ++ next :: after' ++ ws := by
        rw [hsame, List.append_assoc _ [v], List.singleton_append]
      obtain ⟨e, he, hrun⟩ | ⟨front, w, rest, e, rfl, he, hnone, hrun⟩ := ih hbest' hvs
      · exact .inl ⟨e, by rw [hshift, he], hrun⟩
      · exact .inr ⟨v :: front, w, rest, e, rfl, by rw [hshift, he], hnone, hrun⟩

theorem extreme_append : extreme op want best (vs ++ ws) =
    (do extreme op want (← extreme op want best vs) ws) := by
  induction vs generalizing best with
  | nil => rw [List.nil_append, extreme, pure_bind]
  | cons v vs ih =>
    rw [List.cons_append, extreme, extreme, bind_assoc]
    refine bind_congr fun o => ?_
    cases o with
    | some o => exact ih
    | none => rfl

/-- The result is that of a search for the first extreme element. -/
structure FindsFirst (s : Store) (op : CompareOp) (want : Ordering) (vs : List Value)
    (r : EStateM.Result Stop Store Value) : Prop where
  /-- Of elements that all have an order the first extreme one is found. -/
  pairwise : (vs.Pairwise fun v w => s.compare v w ≠ .unordered) →
    ∃ e, s.firstExtreme? want vs = some e ∧ r = .ok e s
  /-- The types do not fit if an element has no order with the first extreme of those in front of
  it, and only then. -/
  refused_iff : (∃ what, r = .error (.error ⟨none, .typing what⟩) s) ↔ s.Unordered want vs
  /-- The first extreme element is found if it is not that. -/
  otherwise : ¬ s.Unordered want vs → ∃ e, s.firstExtreme? want vs = some e ∧ r = .ok e s
  /-- An error names the types of two elements without an order. -/
  error : ∀ stop t, r = .error stop t → ∃ v ∈ vs, ∃ e ∈ vs, s.compare v e = .unordered ∧ t = s ∧
    stop = .error ⟨none, .typing (.unordered op.text (s.typeName v) (s.typeName e))⟩

/-- An element without an order behind the best one so far is refused, if none is refused in front
of it. -/
theorem refused_of_unordered (op : CompareOp) (hwant : want ≠ .eq)
    (hvs : ∀ w ∈ v :: vs, s.Discrete w) (h : s.Unordered want (v :: vs)) :
    ∃ what, extreme op want v vs s = .error (.error ⟨none, .typing what⟩) s := by
  obtain ⟨before, w, after, e, hsplit, he, hnone⟩ := h
  cases before with
  | nil => cases he
  | cons u before =>
    rw [List.cons_append, List.cons.injEq] at hsplit
    obtain ⟨rfl, rfl⟩ := hsplit
    obtain ⟨hv, hrest⟩ := List.forall_mem_cons.1 hvs
    have hbest : s.BestSoFar want [] v [] := .single hv
    have hbefore : ∀ u ∈ before, s.Discrete u := fun u hu => hrest u (by simp [hu])
    rw [extreme_append]
    obtain ⟨e', he', hrun⟩ | ⟨_, _, _, _, -, -, -, hrun⟩ := extreme_cases op hbest hwant hbefore
    · cases he.symm.trans he'
      rw [EStateM.bind_ok hrun, extreme_of_unordered hnone]
      exact ⟨_, rfl⟩
    · rw [EStateM.bind_error hrun]
      exact ⟨_, rfl⟩

theorem findsFirst_extreme (hwant : want ≠ .eq) (hvs : ∀ w ∈ v :: vs, s.Discrete w) :
    FindsFirst s op want (v :: vs) (extreme op want v vs s) := by
  obtain ⟨hv, hrest⟩ := List.forall_mem_cons.1 hvs
  have hunordered := refused_of_unordered op hwant hvs
  obtain ⟨e, he, hrun⟩ | ⟨front, w, rest, e, rfl, he, hnone, hrun⟩ :=
    extreme_cases op (.single hv) hwant hrest
  · have hordered : ¬ s.Unordered want (v :: vs) := by
      intro h
      obtain ⟨what, hwhat⟩ := hunordered h
      rw [hrun] at hwhat
      cases hwhat
    rw [hrun]
    refine ⟨fun _ => ⟨e, he, rfl⟩, iff_of_false ?_ hordered, fun _ => ⟨e, he, rfl⟩, ?_⟩
    · rintro ⟨_, ⟨⟩⟩
    · rintro _ _ ⟨⟩
  · have hstops : s.Unordered want (v :: (front ++ w :: rest)) :=
      ⟨v :: front, w, rest, e, rfl, he, hnone⟩
    have hmem : e ∈ v :: front := List.mem_of_find?_eq_some he
    have hmem' : e ∈ v :: (front ++ w :: rest) := List.mem_append_left (w :: rest) hmem
    rw [hrun]
    refine ⟨fun h => absurd hstops (not_unordered_of_pairwise hvs h), iff_of_true ⟨_, rfl⟩ hstops,
      fun h => absurd hstops h, ?_⟩
    rintro _ _ ⟨⟩
    exact ⟨w, by simp, e, hmem', hnone, rfl, rfl⟩

/-! ## Calls -/

end Run

namespace Value

/-- The value can be run through. -/
def IsIterable : Value → Prop
  | list _ | tuple _ _ | range _ | record _ | str _ _ | dict _ => True
  | _ => False

end Value

namespace Run

theorem exists_items (hv : v.IsIterable) (s : Store) : ∃ vs t, items v s = .ok vs t := by
  cases v with
  | list r | tuple i vs | range r | record r | str i text | dict r =>
    exact exists_items_of_members rfl
  | _ => exact hv.elim

/-- The elements among which the first extreme one is looked for: those of a single argument, or the
arguments.  Texts that are made for elements are in the store. -/
def Elements (s : Store) (args vs : List Value) (t : Store) : Prop :=
  match args with
  | [v] => items v s = .ok vs t
  | args => vs = args ∧ t = s

/-- The elements are gone through from the first one on. -/
theorem extremeOf_eq {b : Builtin} {args : List Value} (h : Elements s args (v :: vs) t) :
    extremeOf b op want args s = extreme op want v vs t := by
  match args with
  | [] => cases h.1
  | [u] =>
    have hitems : items u s = .ok (v :: vs) t := h
    unfold extremeOf
    dsimp only
    rw [EStateM.bind_ok hitems]
  | u :: w :: args =>
    obtain ⟨hargs, rfl⟩ := h
    cases hargs
    rfl

/-- Of elements that all have an order with each other, `min` and `max` find the first one that no
other is beyond.  In general they refuse an element that has no order with the first extreme of
those in front of it.  The elements come to an end and have no floats in them; comparing elements
that hold themselves may bring the process down. -/
theorem min_max_find_first (sink : Sink) (s : Store) (args : List Value)
    (hargs : 2 ≤ args.length ∨ ∃ v, args = [v] ∧ v.IsIterable) :
    ∃ vs t, Elements s args vs t ∧ (vs ≠ [] → (∀ v ∈ vs, t.Discrete v) →
      FindsFirst t .lt .lt vs (callBuiltin sink .min (.ofList args) s) ∧
      FindsFirst t .gt .gt vs (callBuiltin sink .max (.ofList args) s)) := by
  have helements : ∃ vs t, Elements s args vs t := by
    obtain hmany | ⟨v, rfl, hv⟩ := hargs
    · match args, hmany with
      | u :: w :: args, _ => exact ⟨_, s, rfl, rfl⟩
    · exact exists_items hv s
  obtain ⟨vs, t, h⟩ := helements
  refine ⟨vs, t, h, fun hne hvs => ?_⟩
  obtain ⟨v, vs, rfl⟩ := List.exists_cons_of_ne_nil hne
  have hmin : callBuiltin sink .min (.ofList args) s = extremeOf .min .lt .lt args s := rfl
  have hmax : callBuiltin sink .max (.ofList args) s = extremeOf .max .gt .gt args s := rfl
  rw [hmin, hmax, extremeOf_eq h, extremeOf_eq h]
  exact ⟨findsFirst_extreme (by decide) hvs, findsFirst_extreme (by decide) hvs⟩

/-- A store with a record of one slot. -/
def sampleRecord : Store := { Store.empty with records := #[⟨⟨0⟩, [.bool true]⟩] }

/-- Of a record and a tuple that are level the first one is taken, and `None` has no order with a
number. -/
theorem sampleRecord_first :
    callBuiltin .captured .min (.ofList [.tuple 0 [.record ⟨0⟩, .tuple 1 [.int 1]]]) sampleRecord =
      .ok (.record ⟨0⟩) sampleRecord ∧
    callBuiltin .captured .max (.ofList [.tuple 1 [.int 1], .record ⟨0⟩]) sampleRecord =
      .ok (.tuple 1 [.int 1]) sampleRecord ∧
    ∃ what, callBuiltin .captured .max (.ofList [.int 1, .none_]) sampleRecord =
      .error (.error ⟨none, .typing what⟩) sampleRecord := by
  have hatom {v : Value} (hv : v.form ≠ .float) (hparts : sampleRecord.parts v = []) :
      sampleRecord.Discrete v :=
    .of_parts hv fun w hw => absurd (hparts ▸ hw : w ∈ []) List.not_mem_nil
  have hint : sampleRecord.Discrete (.int 1) := hatom Form.noConfusion rfl
  have hnone : sampleRecord.Discrete .none_ := hatom Form.noConfusion rfl
  have hrecord : sampleRecord.Discrete (.record ⟨0⟩) :=
    .of_parts Form.noConfusion fun w hw => by
      cases List.mem_singleton.1 hw
      exact hatom Form.noConfusion rfl
  have htuple : sampleRecord.Discrete (.tuple 1 [.int 1]) :=
    .of_parts Form.noConfusion fun w hw => by
      cases List.mem_singleton.1 hw
      exact hint
  refine ⟨?_, ?_, ?_⟩
  · obtain ⟨vs, t, helements, h⟩ := min_max_find_first .captured sampleRecord
      [.tuple 0 [.record ⟨0⟩, .tuple 1 [.int 1]]] (.inr ⟨_, rfl, trivial⟩)
    cases helements
    obtain ⟨⟨hfirst, -⟩, -⟩ := h (by simp) (by simp [hrecord, htuple])
    obtain ⟨e, he, hrun⟩ := hfirst (by decide +kernel)
    cases he
    exact hrun
  · obtain ⟨vs, t, ⟨rfl, rfl⟩, h⟩ := min_max_find_first .captured sampleRecord
      [.tuple 1 [.int 1], .record ⟨0⟩] (.inl (by decide))
    obtain ⟨-, hfirst, -⟩ := h (by simp) (by simp [hrecord, htuple])
    obtain ⟨e, he, hrun⟩ := hfirst (by decide +kernel)
    cases he
    exact hrun
  · obtain ⟨vs, t, ⟨rfl, rfl⟩, h⟩ := min_max_find_first .captured sampleRecord
      [.int 1, .none_] (.inl (by decide))
    obtain ⟨-, -, hrefused, -⟩ := h (by simp) (by simp [hint, hnone])
    exact hrefused.2 ⟨[.int 1], .none_, [], .int 1, rfl, rfl, rfl⟩

/-- A store with a list that holds itself. -/
def sampleLoop : Store := { Store.empty with lists := #[#[.list ⟨0⟩]] }

/-- Before `None` is refused the list is compared with itself, which has no end. -/
theorem sampleLoop_brought_down :
    callBuiltin .captured .min (.ofList [.list ⟨0⟩, .list ⟨0⟩, .none_]) sampleLoop =
      .error (.aborted .endlessComparison) sampleLoop := by
  have hcompare : sampleLoop.compare (.list ⟨0⟩) (.list ⟨0⟩) = .endless := by decide +kernel
  have hmin : callBuiltin .captured .min (.ofList [.list ⟨0⟩, .list ⟨0⟩, .none_]) sampleLoop =
      extremeOf .min .lt .lt [.list ⟨0⟩, .list ⟨0⟩, .none_] sampleLoop := rfl
  have helements : Elements sampleLoop [.list ⟨0⟩, .list ⟨0⟩, .none_]
      [.list ⟨0⟩, .list ⟨0⟩, .none_] sampleLoop := ⟨rfl, rfl⟩
  rw [hmin, extremeOf_eq helements, extreme, EStateM.bind_error (order?_of_endless hcompare)]

end Run

end StagedScript
