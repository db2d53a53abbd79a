import StagedScript.Proofs.Basic
import StagedScript.Proofs.Unrolling.Sight

/-!
# Unrolled statements are executed alike

Statements and what they are unrolled to are executed in the same way from stores that differ by
unrolling, step by step: a loop that is replaced takes its items from the value that its name stands
for, and so does every round of the replacement.
-/

namespace StagedScript

variable {known : Table Extent} {base : Fact → Prop} {h : Hidden} {facts : Fact → Prop}

namespace Related

/-! ## Steps that change namespaces and functions -/

theorem bind {f : Frame} {x : String} {v : Value} (hv : v.Avoids h)
    (hx : ∀ φ, base φ ∨ facts φ → φ.place = f.locals → φ.name ≠ x) :
    Respects (Related known base h facts) anything (Run.bind f x v) := by
  intro s t hst
  refine .ok ⟨rfl, trivial⟩ ?_
  refine ⟨?_, hst.names, hst.alike, hst.avoids.bind (fun _ => hv) x, hst.hiddenFunctions, ?_, ?_⟩
  · have heq := hst.eq
    simp only [Store.bind, Store.modifyBindings]
    rw [heq]
  · intro r hr
    rw [Store.size_bind]
    exact hst.hiddenNamespaces r hr
  · exact fun φ hφ => (hst.facts φ hφ).bind (hx φ hφ) v

/-- In a namespace that is new there are further facts, as long as it is worked in. -/
theorem newNamespace {α β γ δ : Type} {P : γ → δ → Prop} {Q : α → β → Prop} {b : Table Value}
    (hb : b.Avoids h) (more : NamespaceRef → Fact → Prop)
    (hmore : ∀ r φ, more r φ → φ.place = r ∧ b.get? φ.name = φ.value?)
    {x : NamespaceRef → Run γ} {y : NamespaceRef → Run δ} {k : NamespaceRef → γ → Run α}
    {k' : NamespaceRef → δ → Run β}
    (hxy : ∀ r, ¬ h.namespaces r → (∀ φ, base φ ∨ facts φ → φ.place ≠ r) →
      Matches (Related known base h fun φ => facts φ ∨ more r φ) P (x r) (y r))
    (hk : ∀ r, ¬ h.namespaces r → ∀ c d, P c d →
      Matches (Related known base h facts) Q (k r c) (k' r d)) :
    Matches (Related known base h facts) Q
      (Run.make (·.newNamespace b) >>= fun r => x r >>= k r)
      (Run.make (·.newNamespace b) >>= fun r => y r >>= k' r) := by
  intro s t hst
  have hnamespaces : t.namespaces = s.namespaces := by rw [hst.eq]
  have hst' := hst.pushNamespace hb
  have hfacts : Related known base h (fun φ => facts φ ∨ more ⟨s.namespaces.size⟩ φ)
      (s.newNamespace b).2 (t.newNamespace b).2 := by
    refine { hst' with facts := ?_ }
    rintro φ (hφ | hφ | hφ)
    · exact hst'.facts φ (Or.inl hφ)
    · exact hst'.facts φ (Or.inr hφ)
    · obtain ⟨hplace, hget⟩ := hmore _ φ hφ
      refine ⟨?_, ?_⟩
      · simp [hplace, Store.newNamespace]
      · simp [hplace, Store.newNamespace, Store.bindings, hget]
  -- What is hidden, and what there are facts about, was there before.
  have hr : ¬ h.namespaces ⟨s.namespaces.size⟩ := by
    intro hr
    exact absurd (hst.hiddenNamespaces _ hr) (Nat.lt_irrefl _)
  have hfresh : ∀ φ, base φ ∨ facts φ → φ.place ≠ ⟨s.namespaces.size⟩ := by
    intro φ hφ hplace
    have hlt := (hst.facts φ hφ).1
    rw [hplace] at hlt
    exact Nat.lt_irrefl _ hlt
  have hnew := hxy _ hr hfresh _ _ hfacts
  have hsize : (⟨t.namespaces.size⟩ : NamespaceRef) = ⟨s.namespaces.size⟩ := by rw [hnamespaces]
  change Outcome _ _ (EStateM.bind (x ⟨s.namespaces.size⟩) (k _) (s.newNamespace b).2)
    (EStateM.bind (y ⟨t.namespaces.size⟩) (k' ⟨t.namespaces.size⟩) (t.newNamespace b).2)
  rw [hsize]
  unfold EStateM.bind
  revert hnew
  generalize x _ _ = p
  generalize y _ _ = q
  intro hnew
  cases hnew with
  | ok hcd hst'' => exact hk _ hr _ _ hcd _ _ (hst''.weaken fun _ => Or.inl)
  | error hst'' => exact .error (hst''.weaken fun _ => Or.inl)

/-- A new function is related to one that differs by unrolling. -/
theorem newFunction {f g : Function} (hfg : f.Alike known base g) (hf : f.Avoids h) :
    Matches (Related known base h facts) (fun r q => r = q ∧ ¬ h.functions r)
      (Run.make (·.newFunction f)) (Run.make (·.newFunction g)) := by
  intro s t hst
  have hsize := hst.functions_size
  refine .ok ⟨?_, fun hr => absurd (hst.hiddenFunctions _ hr) (by simp)⟩ ?_
  · exact congrArg FunctionRef.mk hsize.symm
  · have hpush {u : Store} {x : Function} (r : FunctionRef) : (u.newFunction x).2.getFunction? r =
        if r.index = u.functions.size then some x else u.getFunction? r := by
      simp [Store.newFunction, Store.getFunction?, Array.getElem?_push]
    change Related known base h facts (s.newFunction f).2 (t.newFunction g).2
    refine ⟨?_, ?_, ?_, hst.avoids.newFunction hf, ?_, hst.hiddenNamespaces, hst.facts⟩
    · have heq := hst.eq
      simp only [Store.newFunction]
      rw [heq]
    · intro r
      rw [hpush, hpush, hsize]
      split
      · have hname : g.name = f.name := by rw [hfg.twin.eq]
        rw [Option.map_some, Option.map_some, hname]
      · exact hst.names r
    · intro r hr x hx
      rw [hpush] at hx ⊢
      rw [hsize]
      split at hx
      · next hi =>
        cases hx
        exact ⟨g, if_pos hi, hfg⟩
      · next hi =>
        rw [if_neg hi]
        exact hst.alike r hr x hx
    · intro r hr
      have hlt := hst.hiddenFunctions r hr
      simp only [Store.newFunction, Array.size_push]
      omega

/-- A function is looked up alike. -/
theorem getFunction? {r : FunctionRef} (hr : ¬ h.functions r) :
    Matches (Related known base h facts) (Function.FoundAlike known base h)
      (Run.view (·.getFunction? r)) (Run.view (·.getFunction? r)) := by
  intro s t hst
  refine .ok ?_ hst
  dsimp only
  cases hs : s.getFunction? r with
  | none =>
    have hnames := hst.names r
    rw [hs] at hnames
    rw [Option.map_eq_none_iff.1 hnames]
    exact .none
  | some f =>
    obtain ⟨g, hg, hfg⟩ := hst.alike r hr f hs
    rw [hg]
    exact .some hfg (hst.avoids.functions r f hr hs)

end Related

/-! ## What is in sight -/

theorem Frame.Shows.find? {hidden : String → Prop} {σ : Sight} {f : Frame}
    (hf : f.Shows base facts hidden σ) {s : Store} (hs : ∀ φ, base φ ∨ facts φ → φ.Holds s)
    {x : String} (hx : ¬ hidden x) {v : Value} (hv : σ.find? x = some v) :
    f.find? s x = some v := by
  have hhere : (s.bindings f.locals).get? x = σ.here x := (hs _ (hf.here x hx)).2
  have haround : f.captured?.bind (·.get? x) = σ.around?.bind (· x) := by
    have hmap := hf.around x hx
    cases hc : f.captured? <;> cases hσ : σ.around? <;> simp_all
  have hbeyond (w : Value) (hw : σ.beyond x = some w) : (s.bindings f.globals).get? x = some w :=
    (hs _ (Or.inl (hf.beyond x w hx hw))).2
  unfold Sight.find? at hv
  unfold Frame.find?
  rw [hhere, haround]
  cases h1 : σ.here x <;> cases h2 : σ.around?.bind (· x) <;> simp_all

theorem Table.get?_insertAll_of_names (g : String → Option Value) (names : List String)
    (t : Table Value) (x : String) :
    (t.insertAll (names.filterMap fun name => (g name).map (name, ·))).get? x =
      if x ∈ names then (g x).or (t.get? x) else t.get? x := by
  induction names generalizing t with
  | nil => rfl
  | cons name names ih =>
    cases hg : g name with
    | none =>
      have hskip : ((name :: names).filterMap fun name => (g name).map (name, ·)) =
          names.filterMap fun name => (g name).map (name, ·) := by simp [hg]
      rw [hskip, ih]
      by_cases hx : x = name
      · subst hx
        simp [hg]
      · simp [hx]
    | some v =>
      have htake : ((name :: names).filterMap fun name => (g name).map (name, ·)) =
          (name, v) :: names.filterMap fun name => (g name).map (name, ·) := by simp [hg]
      rw [htake]
      change ((t.insert name v).insertAll _).get? x = _
      rw [ih, Table.get?_insert]
      by_cases hx : x = name
      · subst hx
        cases names.contains x <;> simp [hg]
      · simp [hx]

theorem Frame.get?_capture (f : Frame) (s : Store) (names : List String) (x : String) :
    (f.capture s names).get? x = f.captured?.bind fun outer =>
      if x ∈ names then (s.bindings f.locals).get? x <|> outer.get? x else none := by
  unfold Frame.capture
  cases f.captured? with
  | none => rfl
  | some outer =>
    have hget := Table.get?_insertAll_of_names
      (fun name => (s.bindings f.locals).get? name <|> outer.get? name) names .empty x
    simp only [Table.get?_empty, Option.or_none] at hget
    exact hget

/-- What a nested function captures of names that are not hidden is what its sight says. -/
theorem Frame.Shows.capture {hidden : String → Prop} {σ : Sight} {f : Frame}
    (hf : f.Shows base facts hidden σ) {s : Store} (hs : ∀ φ, base φ ∨ facts φ → φ.Holds s)
    (names : List String) {x : String} (hx : ¬ hidden x) :
    some ((f.capture s names).get? x) = (σ.inFunction names).around?.map (· x) := by
  have hhere : (s.bindings f.locals).get? x = σ.here x := (hs _ (hf.here x hx)).2
  have hmap := hf.around x hx
  rw [f.get?_capture, hhere]
  unfold Sight.inFunction
  cases hc : f.captured? <;> cases hσ : σ.around? <;> simp_all

/-! ## The items of a loop -/

/-- What a value that never changes has for items. -/
def Value.fixedMembers : Value → List Run.Member
  | tuple _ items => items.map .value
  | str _ text => text.toList.map fun c => .text c.toString
  | _ => []

theorem Value.Avoids.fixedMembers {h : Hidden} {v : Value} (hv : v.Avoids h) :
    ∀ m ∈ v.fixedMembers, m.Avoids h := by
  intro m hm
  cases v <;> simp only [Value.fixedMembers, List.not_mem_nil] at hm
  case tuple id items =>
    obtain ⟨w, hw, rfl⟩ := List.mem_map.1 hm
    exact Value.avoids_tuple.1 hv w hw
  case str id text =>
    obtain ⟨c, -, rfl⟩ := List.mem_map.1 hm
    exact trivial

namespace Value.Counts

variable {n : Nat} {v : Value} (hv : v.Counts n)
include hv

theorem cases_eq : (∃ id items, v = .tuple id items ∧ items.length = n) ∨
    ∃ id text, v = .str id text ∧ text.length = n := by
  cases v
  case tuple id items => exact Or.inl ⟨id, items, rfl, hv⟩
  case str id text => exact Or.inr ⟨id, text, rfl, hv⟩
  all_goals exact absurd hv (by simp [Value.Counts])

theorem members_eq : Run.members v = pure v.fixedMembers := by
  rcases hv.cases_eq with ⟨id, items, rfl, -⟩ | ⟨id, text, rfl, -⟩
  · rfl
  · rfl

theorem length_fixedMembers : v.fixedMembers.length = n := by
  rcases hv.cases_eq with ⟨id, items, rfl, hlen⟩ | ⟨id, text, rfl, hlen⟩
  · simpa [fixedMembers] using hlen
  · simpa [fixedMembers, String.length_toList] using hlen

/-- The item that an index means is the one that a loop meets there. -/
theorem getItem_eq (hn : n < Run.lengthLimit) {i : Nat} (hi : i < n) {m : Run.Member}
    (hm : v.fixedMembers[i]? = some m) :
    Run.getItem v (.int (Int64.ofNat i)) = m.take := by
  rcases hv.cases_eq with ⟨id, items, rfl, rfl⟩ | ⟨id, text, rfl, rfl⟩
  · obtain ⟨w, hw, rfl⟩ := Option.map_eq_some_iff.1 ((List.getElem?_map ..).symm.trans hm)
    unfold Run.getItem Run.itemAt
    dsimp only
    rw [Run.place_ofNat _ hn hi, pure_bind, hw]
    rfl
  · obtain ⟨c, hc, rfl⟩ := Option.map_eq_some_iff.1 ((List.getElem?_map ..).symm.trans hm)
    unfold Run.getItem
    dsimp only
    rw [Run.place_ofNat _ hn hi, pure_bind, hc]
    rfl

end Value.Counts

end StagedScript
