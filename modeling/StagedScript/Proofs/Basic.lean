import Mathlib.Tactic.Common
import StagedScript.Run.Item

/-!
# Steps that may fail

A computation that succeeds has succeeded in each of its steps.
-/

namespace StagedScript

theorem Except.bind_eq_ok {ε α β : Type} {x : Except ε α} {f : α → Except ε β} {b : β} :
    (x >>= f) = .ok b ↔ ∃ a, x = .ok a ∧ f a = .ok b := by
  cases x with
  | ok a => simp [bind, Except.bind]
  | error e => simp [bind, Except.bind]

theorem Except.bind_eq_error {ε α β : Type} {x : Except ε α} {f : α → Except ε β} {e : ε} :
    (x >>= f) = .error e ↔ x = .error e ∨ ∃ a, x = .ok a ∧ f a = .error e := by
  cases x with
  | ok a => simp [bind, Except.bind]
  | error e => simp [bind, Except.bind]

theorem EStateM.bind_eq_ok {ε σ α β : Type} {x : EStateM ε σ α} {f : α → EStateM ε σ β} {b : β}
    {s t : σ} : (x >>= f) s = .ok b t ↔ ∃ a s', x s = .ok a s' ∧ f a s' = .ok b t := by
  change EStateM.bind x f s = _ ↔ _
  unfold EStateM.bind
  cases x s with
  | ok a s' => simp
  | error e s' => simp

theorem EStateM.bind_eq_error {ε σ α β : Type} {x : EStateM ε σ α} {f : α → EStateM ε σ β} {e : ε}
    {s t : σ} : (x >>= f) s = .error e t ↔
      x s = .error e t ∨ ∃ a s', x s = .ok a s' ∧ f a s' = .error e t := by
  change EStateM.bind x f s = _ ↔ _
  unfold EStateM.bind
  cases x s with
  | ok a s' => simp
  | error e s' => simp

theorem EStateM.bind_ok {ε σ α β : Type} {x : EStateM ε σ α} {f : α → EStateM ε σ β} {a : α}
    {s t : σ} (hx : x s = .ok a t) : (x >>= f) s = f a t := by
  change EStateM.bind x f s = _
  unfold EStateM.bind
  rw [hx]

theorem EStateM.bind_error {ε σ α β : Type} {x : EStateM ε σ α} {f : α → EStateM ε σ β} {e : ε}
    {s t : σ} (hx : x s = .error e t) : (x >>= f) s = .error e t := by
  change EStateM.bind x f s = _
  unfold EStateM.bind
  rw [hx]

/-- Computations that start alike go on alike. -/
theorem EStateM.bind_eq_bind {ε σ α β : Type} {x : EStateM ε σ α} {f : α → EStateM ε σ β} {s t : σ}
    (h : x s = x t) : (x >>= f) s = (x >>= f) t := by
  change EStateM.bind x f s = EStateM.bind x f t
  unfold EStateM.bind
  rw [h]

theorem EStateM.exists_of_isSome {ε σ α : Type} {x : EStateM ε σ α} {s : σ}
    (h : (x.run' s).isSome = true) :
    ∃ a t, x s = .ok a t := by
  delta EStateM.run' EStateM.run at h
  cases hresult : x s with
  | ok a t => exact ⟨a, t, rfl⟩
  | error e t =>
    rw [hresult] at h
    cases h

/-- Different numbers behind a text make different texts. -/
theorem append_number_injective (stem : String) :
    Function.Injective fun n : Nat => stem ++ toString n := by
  intro n m h
  have hdigits : Nat.toDigits 10 n = Nat.toDigits 10 m := by simpa using congrArg String.toList h
  have hread := congrArg (Nat.ofDigitChars 10 · 0) hdigits
  simpa [Nat.ofDigitChars_toDigits] using hread

end StagedScript

/-!
## What small computations give

What checks come to, which places indices mean, and which items values have.
-/

namespace StagedScript.Run

theorem ofExcept_eq_ok {α : Type} {x : Except Fault α} {a : α} {s t : Store} :
    ofExcept x s = .ok a t ↔ x = .ok a ∧ s = t := by
  cases x with
  | ok a' =>
    change EStateM.Result.ok a' s = _ ↔ _
    simp
  | error e =>
    change EStateM.Result.error _ s = _ ↔ _
    simp

/-! ## Comparisons -/

section Comparisons

variable {s : Store} {a b : Value}

theorem equal_of_some {answer : Bool} (h : s.equal a b = some answer) :
    equal a b s = .ok answer s := by
  have hview : view (·.equal a b) s = .ok (some answer) s := by rw [← h]; rfl
  rw [equal, EStateM.bind_ok hview]
  rfl

theorem equal_of_none (h : s.equal a b = none) :
    equal a b s = .error (.aborted .endlessComparison) s := by
  have hview : view (·.equal a b) s = .ok none s := by rw [← h]; rfl
  rw [equal, EStateM.bind_ok hview]
  rfl

theorem order?_of_order {o : Ordering} (h : s.compare a b = .order o) :
    order? a b s = .ok (some o) s := by
  have hview : view (·.compare a b) s = .ok (.order o) s := by rw [← h]; rfl
  rw [order?, EStateM.bind_ok hview]
  rfl

theorem order?_of_unordered (h : s.compare a b = .unordered) : order? a b s = .ok none s := by
  have hview : view (·.compare a b) s = .ok .unordered s := by rw [← h]; rfl
  rw [order?, EStateM.bind_ok hview]
  rfl

theorem order?_of_endless (h : s.compare a b = .endless) :
    order? a b s = .error (.aborted .endlessComparison) s := by
  have hview : view (·.compare a b) s = .ok .endless s := by rw [← h]; rfl
  rw [order?, EStateM.bind_ok hview]
  rfl

end Comparisons

/-! ## Places -/

section Place

variable {n i : Nat} (hn : n < lengthLimit) (hi : i < n)
include hn hi

/-- An index that is in range means its own place. -/
theorem place?_ofNat : place? i n = some i := by
  unfold place?
  have hneg : ¬ (i : Int) < 0 := by omega
  rw [if_neg hneg, if_pos ⟨hn, by omega, by omega⟩, Int.toNat_natCast]

/-- A negative index counts from the end. -/
theorem place?_sub : place? (i - n : Int) n = some i := by
  unfold place?
  have hneg : (i - n : Int) < 0 := by omega
  rw [if_pos hneg, Int.sub_add_cancel, if_pos ⟨hn, by omega, by omega⟩, Int.toNat_natCast]

end Place

theorem place_eq {container : Value} {n i : Nat} {index : Int64}
    (h : place? index.toInt n = some i) : place container n (.int index) = pure i := by
  unfold place
  simp only [Value.int?, h]

theorem place_ofNat (container : Value) {n i : Nat} (hn : n < lengthLimit) (hi : i < n) :
    place container n (.int (Int64.ofNat i)) = pure i := by
  have htoInt : (Int64.ofNat i).toInt = i := Int64.toInt_ofNat_of_lt (Nat.lt_trans hi hn)
  exact place_eq (htoInt ▸ place?_ofNat hn hi)

/-! ## Items -/

theorem mapM_take_values (vs : List Value) :
    (vs.map Member.value).mapM Member.take = (pure vs : Run (List Value)) := by
  induction vs with
  | nil => rfl
  | cons v vs ih =>
    rw [List.map_cons, List.mapM_cons, ih]
    rfl

/-- The values that a value has for items are taken as they are. -/
theorem items_of_members {v : Value} {s : Store} {vs : List Value}
    (h : members v s = .ok (vs.map Member.value) s) : items v s = .ok vs s := by
  unfold items
  rw [EStateM.bind_ok h, mapM_take_values]
  rfl

/-- Whatever a value has for items can be taken. -/
theorem exists_items_of_members {v : Value} {s : Store} {ms : List Member}
    (h : members v s = .ok ms s) :
    ∃ vs t, items v s = .ok vs t := by
  have htake (s : Store) : ∃ vs t, ms.mapM Member.take s = .ok vs t := by
    clear h
    induction ms generalizing s with
    | nil => exact ⟨[], s, rfl⟩
    | cons m ms ih =>
      obtain ⟨v, s₁, hv⟩ : ∃ v s₁, m.take s = .ok v s₁ := by
        cases m with
        | value v => exact ⟨v, s, rfl⟩
        | text t => exact ⟨_, _, rfl⟩
      obtain ⟨vs, s₂, hvs⟩ := ih s₁
      rw [List.mapM_cons, EStateM.bind_ok hv, EStateM.bind_ok hvs]
      exact ⟨_, _, rfl⟩
  obtain ⟨vs, t, hvs⟩ := htake s
  exact ⟨vs, t, (EStateM.bind_ok h).trans hvs⟩

end StagedScript.Run
