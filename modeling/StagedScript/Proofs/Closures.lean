import StagedScript.Proofs.Tables
import StagedScript.Specialize.Closure

/-!
# What a closure is made of

When a function can be specialized, its text has been written into a maker, and this has been read.
-/

namespace StagedScript

theorem Specialize.ofRun_eq_ok {α : Type} {x : Run α} {a : α} {s t : Store} :
    Specialize.ofRun x s = .ok a t ↔ x s = .ok a t := by
  unfold Specialize.ofRun
  cases x s with
  | ok a' s' => simp
  | error e s' => simp

theorem Specialize.ofExcept_eq_ok {ε α : Type} {wrap : ε → SpecializeError} {x : Except ε α} {a : α}
    {s t : Store} : Specialize.ofExcept wrap x s = .ok a t ↔ x = .ok a ∧ s = t := by
  cases x with
  | ok a' =>
    change EStateM.Result.ok a' s = _ ↔ _
    simp
  | error e =>
    change EStateM.Result.error _ s = _ ↔ _
    simp

namespace Closure

/-- How a closure comes about: the names of its values are the parameters of a maker, which is
written around the text of the function and read again. -/
structure Written (v : Value) (s : Store) (c : Closure) (script : Script) (text : String) :
    Prop where
  function : ∃ r, v = .function r ∧ s.getFunction? r = some c.function
  render : Closure.render c.function c.vars.keys = .ok text
  parse : Script.parse text c.function.origin.source.label = .ok script
  script : c.script = script.shift (c.function.firstLine - 2)
  unrollings : c.unrollings = []

theorem written_of_ofFunction {v : Value} {given : Table Value} {s t : Store} {c : Closure}
    (hc : ofFunction v given s = .ok c t) : ∃ script text, c.Written v s script text := by
  obtain ⟨type, s₁, htype, hc⟩ := EStateM.bind_eq_ok.1 hc
  cases htype
  cases v with
  | function r =>
    obtain ⟨f?, s₂, hf, hc⟩ := EStateM.bind_eq_ok.1 hc
    cases hf
    dsimp only at hc
    cases hget : s.getFunction? r with
    | none =>
      rw [hget] at hc
      cases hc
    | some f =>
      rw [hget] at hc
      obtain ⟨given', s₃, -, hc⟩ := EStateM.bind_eq_ok.1 hc
      obtain ⟨passing, s₄, -, hc⟩ := EStateM.bind_eq_ok.1 hc
      obtain ⟨text, s₅, htext, hc⟩ := EStateM.bind_eq_ok.1 hc
      obtain ⟨script, s₆, hscript, hc⟩ := EStateM.bind_eq_ok.1 hc
      cases hc
      exact ⟨script, text, ⟨r, rfl, hget⟩, (Specialize.ofExcept_eq_ok.1 htext).1,
        (Specialize.ofExcept_eq_ok.1 hscript).1, rfl, rfl⟩
  | _ => cases hc

/-! ## The values of names -/

theorem vars_of_ofFunction {v : Value} {names : Table Value} {s t : Store} {c : Closure}
    (hc : ofFunction v names s = .ok c t) : ∃ given passing s₁,
      fixedAll names.entries s = .ok given s₁ ∧ (∃ i, passing = .native i .passing []) ∧
        c.vars = varsOf given c.function.captured passing := by
  obtain ⟨type, s₁, htype, hc⟩ := EStateM.bind_eq_ok.1 hc
  cases htype
  cases v with
  | function r =>
    obtain ⟨f?, s₂, hf, hc⟩ := EStateM.bind_eq_ok.1 hc
    cases hf
    dsimp only at hc
    cases hget : s.getFunction? r with
    | none =>
      rw [hget] at hc
      cases hc
    | some f =>
      rw [hget] at hc
      obtain ⟨given, s₃, hgiven, hc⟩ := EStateM.bind_eq_ok.1 hc
      obtain ⟨passing, s₄, hpassing, hc⟩ := EStateM.bind_eq_ok.1 hc
      obtain ⟨text, s₅, -, hc⟩ := EStateM.bind_eq_ok.1 hc
      obtain ⟨script, s₆, -, hc⟩ := EStateM.bind_eq_ok.1 hc
      cases hc
      cases hpassing
      exact ⟨given, _, s₃, hgiven, ⟨_, rfl⟩, rfl⟩
  | _ => cases hc

/-- What is given for one name, if it counts, and for the names behind it. -/
theorem fixedAll_cons {e : String × Value} {es given : List (String × Value)} {s t : Store}
    (h : fixedAll (e :: es) s = .ok given t) : Word.isName e.1 = true ∧
      (e.1 = unrollName ∧ fixedAll es s = .ok given t ∨
      e.1 ≠ unrollName ∧ ∃ v rest s₁, Specialize.ofRun (fixed e.2) s = .ok v s₁ ∧
        fixedAll es s₁ = .ok rest t ∧ given = (e.1, v) :: rest) := by
  unfold fixedAll at h
  cases hname : Word.isName e.1 with
  | false =>
    rw [hname] at h
    cases h
  | true =>
    refine ⟨rfl, ?_⟩
    simp only [hname, Bool.not_true, Bool.false_eq_true, if_false] at h
    split at h
    · next heq => exact .inl ⟨heq, h⟩
    · next hne =>
      obtain ⟨v, s₁, hv, h⟩ := EStateM.bind_eq_ok.1 h
      obtain ⟨rest, s₂, hrest, h⟩ := EStateM.bind_eq_ok.1 h
      cases h
      exact .inr ⟨hne, v, rest, s₁, hv, hrest, rfl⟩

/-- All that is given is given for names. -/
theorem forall_isName_of_fixedAll {es given : List (String × Value)} {s t : Store}
    (h : fixedAll es s = .ok given t) : ∀ e ∈ es, Word.isName e.1 = true := by
  induction es generalizing s given with
  | nil => simp
  | cons e es ih =>
    obtain ⟨hname, ⟨-, h⟩ | ⟨-, v, rest, s₁, -, hrest, -⟩⟩ := fixedAll_cons h
    · exact List.forall_mem_cons.2 ⟨hname, ih h⟩
    · exact List.forall_mem_cons.2 ⟨hname, ih hrest⟩

/-- Only names count. -/
theorem isName_of_fixedAll {es given : List (String × Value)} {s t : Store}
    (h : fixedAll es s = .ok given t) : ∀ x ∈ Entries.keys given, Word.isName x = true := by
  induction es generalizing s given with
  | nil =>
    cases h
    exact fun x hx => (List.not_mem_nil hx).elim
  | cons e es ih =>
    obtain ⟨hname, ⟨-, h⟩ | ⟨-, v, rest, s₁, -, hrest, rfl⟩⟩ := fixedAll_cons h
    · exact ih h
    · intro x hx
      rcases List.mem_cons.1 hx with rfl | hx
      · exact hname
      · exact ih hrest x hx

/-- Values that are fixed already count as they are. -/
theorem fixedAll_of_fixed {es given : List (String × Value)} {s t : Store}
    (hes : ∀ e ∈ es, fixed e.2 = pure e.2) (h : fixedAll es s = .ok given t) :
    given = es.filter (·.1 != unrollName) := by
  induction es generalizing s given with
  | nil =>
    cases h
    rfl
  | cons e es ih =>
    have hrest := fun e' he' => hes e' (List.mem_cons_of_mem _ he')
    obtain ⟨-, ⟨heq, h⟩ | ⟨hne, v, rest, s₁, hv, hrest', rfl⟩⟩ := fixedAll_cons h
    · rw [List.filter_cons, heq, bne_self_eq_false, if_neg Bool.false_ne_true]
      exact ih hrest h
    · rw [hes e (by simp)] at hv
      cases hv
      rw [List.filter_cons, if_pos (bne_iff_ne.2 hne), ih hrest hrest']

theorem mem_keys_varsOf {given : List (String × Value)} {captured : Table Value} {passing : Value}
    {x : String} (hx : x ∈ (varsOf given captured passing).keys) :
    x = unrollName ∨ x ∈ Entries.keys given ∨ x ∈ captured.keys := by
  have hmore {es : List (String × Value)} (p : String × Value → Bool)
      (h : x ∈ Entries.keys (es.filter p)) : x ∈ Entries.keys es :=
    (Entries.keys_filter_sublist p es).subset h
  have hkeys : x = unrollName ∨ x ∈ ((Table.ofList given).insertAll
      (captured.entries.filter fun e => !(Table.ofList given).contains e.1)).keys := by
    unfold varsOf at hx
    rw [Table.keys_insert] at hx
    split at hx
    · exact .inr hx
    · rcases List.mem_append.1 hx with hx | hx
      · exact .inr hx
      · exact .inl (List.mem_singleton.1 hx)
  rw [Table.mem_keys_insertAll, Table.ofList, Table.mem_keys_insertAll] at hkeys
  rcases hkeys with hx | (hx | hx) | hx
  · exact .inl hx
  · exact (List.not_mem_nil hx).elim
  · exact .inr (.inl hx)
  · exact .inr (.inr (hmore _ hx))

/-- The values of a closure are those of names, if all others are. -/
theorem isName_varsOf {given : List (String × Value)} {captured : Table Value} {passing : Value}
    (hgiven : ∀ x ∈ Entries.keys given, Word.isName x = true)
    (hcaptured : ∀ x ∈ captured.keys, Word.isName x = true) :
    ∀ x ∈ (varsOf given captured passing).keys, Word.isName x = true := by
  intro x hx
  rcases mem_keys_varsOf hx with rfl | hx | hx
  · rfl
  · exact hgiven x hx
  · exact hcaptured x hx

/-- The values of a closure are those of names, as far as the function has captured values of
names. -/
theorem isName_of_ofFunction {v : Value} {names : Table Value} {s t : Store} {c : Closure}
    (hc : ofFunction v names s = .ok c t)
    (hcaptured : ∀ x ∈ c.function.captured.keys, Word.isName x = true) :
    ∀ x ∈ c.vars.keys, Word.isName x = true := by
  obtain ⟨given, passing, s₁, hgiven, -, hvars⟩ := vars_of_ofFunction hc
  rw [hvars]
  exact isName_varsOf (isName_of_fixedAll hgiven) hcaptured

/-- A value that is given for a name comes before one that is captured. -/
theorem get?_varsOf {names captured : Table Value} {passing : Value} {x : String}
    (hx : x ≠ unrollName) (hnames : x ∈ names.keys) :
    (varsOf (names.entries.filter (·.1 != unrollName)) captured passing).get? x = names.get? x := by
  have hgiven : Table.ofList (names.entries.filter (·.1 != unrollName)) =
      names.filter fun name _ => name != unrollName :=
    (names.filter fun name _ => name != unrollName).ofList_entries
  have hget : (names.filter fun name _ => name != unrollName).get? x = names.get? x := by
    rw [Table.get?_filter (· != unrollName), if_pos (bne_iff_ne.2 hx)]
  have hcontains : (names.filter fun name _ => name != unrollName).contains x = true := by
    rw [Table.contains_iff, ← Table.isSome_get?_iff, hget]
    exact Table.isSome_get?_iff.2 hnames
  unfold varsOf
  rw [hgiven, Table.get?_insert, if_neg hx, Table.get?_insertAll, hget]
  intro hmem
  obtain ⟨e, he, rfl⟩ := List.mem_map.1 hmem
  have hnot : (!Table.contains _ e.1) = true := (List.mem_filter.1 he).2
  rw [hcontains] at hnot
  cases hnot

end Closure

end StagedScript
