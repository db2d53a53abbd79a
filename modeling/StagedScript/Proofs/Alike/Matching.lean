import StagedScript.Proofs.Alike.Reach

/-!
# Runs that match

Two computations match with respect to a relation on stores if from related stores they end in the
same way, in related stores again.  The relations of interest leave everything but the bodies of
functions as it is, and are kept by whatever does not look into these: `Kinship`.  A computation
that matches itself for such a relation respects it.
-/

namespace StagedScript

variable {ε α β γ δ : Type} {R : Store → Store → Prop}

/-- Two ways to end that cannot be told apart: with related results or with the same error, in
related stores. -/
inductive Outcome (R : Store → Store → Prop) (Q : α → β → Prop) :
    EStateM.Result ε Store α → EStateM.Result ε Store β → Prop
  | ok {a : α} {b : β} {s t : Store} : Q a b → R s t → Outcome R Q (.ok a s) (.ok b t)
  | error {e : ε} {s t : Store} : R s t → Outcome R Q (.error e s) (.error e t)

/-- From related stores two computations end in ways that cannot be told apart. -/
def Matches (R : Store → Store → Prop) (Q : α → β → Prop) (x : EStateM ε Store α)
    (y : EStateM ε Store β) : Prop := ∀ s t, R s t → Outcome R Q (x s) (y t)

/-- A computation matches itself, and its results have a property. -/
def Respects (R : Store → Store → Prop) (P : α → Prop) (x : EStateM ε Store α) : Prop :=
  Matches R (fun a b => a = b ∧ P a) x x

/-- No condition on a result. -/
abbrev anything (_ : α) : Prop := True

namespace Outcome

theorem mono {S : Store → Store → Prop} {Q Q' : α → β → Prop} {x : EStateM.Result ε Store α}
    {y : EStateM.Result ε Store β} (hxy : Outcome R Q x y) (hR : ∀ s t, R s t → S s t)
    (hQ : ∀ a b, Q a b → Q' a b) : Outcome S Q' x y := by
  cases hxy with
  | ok hab hst => exact .ok (hQ _ _ hab) (hR _ _ hst)
  | error hst => exact .error (hR _ _ hst)

end Outcome

namespace Matches

variable {x : EStateM ε Store α} {y : EStateM ε Store β} {Q Q' : α → β → Prop}

theorem mono (hxy : Matches R Q x y) (hQ : ∀ a b, Q a b → Q' a b) : Matches R Q' x y :=
  fun s t hst => (hxy s t hst).mono (fun _ _ h => h) hQ

theorem pure {a : α} {b : β} (hab : Q a b) :
    Matches R Q (Pure.pure a : EStateM ε Store α) (Pure.pure b) := fun _ _ hst => .ok hab hst

theorem throw (e : ε) :
    Matches R Q (MonadExcept.throw e : EStateM ε Store α) (MonadExcept.throw e) :=
  fun _ _ hst => .error hst

theorem bind {P : γ → δ → Prop} {x : EStateM ε Store γ} {y : EStateM ε Store δ}
    {f : γ → EStateM ε Store α} {g : δ → EStateM ε Store β} (hxy : Matches R P x y)
    (hfg : ∀ a b, P a b → Matches R Q (f a) (g b)) : Matches R Q (x >>= f) (y >>= g) := by
  intro s t hst
  change Outcome R Q (EStateM.bind x f s) (EStateM.bind y g t)
  unfold EStateM.bind
  have h := hxy s t hst
  generalize x s = r at h
  generalize y t = q at h
  cases h with
  | ok hab hst' => exact hfg _ _ hab _ _ hst'
  | error hst' => exact .error hst'

end Matches

namespace Respects

variable {P Q : α → Prop} {x : EStateM ε Store α}

theorem mono (hx : Respects R P x) (hPQ : ∀ a, P a → Q a) : Respects R Q x :=
  Matches.mono hx fun _ _ h => ⟨h.1, hPQ _ h.2⟩

theorem anything (hx : Respects R P x) : Respects R anything x := hx.mono fun _ _ => trivial

theorem pure {a : α} (ha : P a) : Respects R P (Pure.pure a : EStateM ε Store α) :=
  Matches.pure ⟨rfl, ha⟩

theorem throw (e : ε) : Respects R P (MonadExcept.throw e : EStateM ε Store α) := Matches.throw e

/-- A computation that respects the relation, followed by two that match. -/
theorem bind_matches {P : γ → Prop} {Q : α → β → Prop} {x : EStateM ε Store γ}
    {f : γ → EStateM ε Store α} {g : γ → EStateM ε Store β} (hx : Respects R P x)
    (hfg : ∀ a, P a → Matches R Q (f a) (g a)) : Matches R Q (x >>= f) (x >>= g) :=
  Matches.bind hx (by rintro a _ ⟨rfl, ha⟩; exact hfg a ha)

theorem bind {P : γ → Prop} {x : EStateM ε Store γ} {f : γ → EStateM ε Store α}
    (hx : Respects R P x) (hf : ∀ a, P a → Respects R Q (f a)) : Respects R Q (x >>= f) :=
  bind_matches hx hf

/-- A computation followed by a result of its own. -/
theorem bind_pure_matches {P : γ → Prop} {x : EStateM ε Store γ} {a : α} (hx : Respects R P x) :
    Matches R (fun _ b => b = a) x (x >>= fun _ => Pure.pure a) := by
  conv => arg 3; rw [← bind_pure x]
  exact hx.bind_matches fun _ _ => .pure rfl

theorem map {P : γ → Prop} {x : EStateM ε Store γ} {f : γ → α} (hx : Respects R P x)
    (hf : ∀ a, P a → Q (f a)) : Respects R Q (f <$> x) := by
  have hfx : f <$> x = x >>= fun a => Pure.pure (f a) := (bind_pure_comp f x).symm
  rw [hfx]
  exact hx.bind fun a ha => .pure (hf a ha)

theorem discard (hx : Respects R P x) : Respects R StagedScript.anything (discard x) :=
  hx.map fun _ _ => trivial

theorem view {f : Store → α} (hf : ∀ s t, R s t → f t = f s ∧ P (f s)) :
    Respects R P (Run.view f) := by
  intro s t hst
  obtain ⟨hfst, hP⟩ := hf s t hst
  exact .ok ⟨hfst.symm, hP⟩ hst

theorem mapM {l : List γ} {f : γ → EStateM ε Store α} (hf : ∀ a ∈ l, Respects R P (f a)) :
    Respects R (fun bs => ∀ b ∈ bs, P b) (l.mapM f) := by
  induction l with
  | nil => exact .pure (by simp)
  | cons a l ih =>
    rw [List.mapM_cons]
    refine (hf a (by simp)).bind fun b hb => ?_
    refine (ih fun c hc => hf c (List.mem_cons_of_mem _ hc)).bind fun bs hbs => .pure ?_
    simpa using ⟨hb, hbs⟩

theorem forM {l : List γ} {f : γ → EStateM ε Store Unit}
    (hf : ∀ a ∈ l, Respects R StagedScript.anything (f a)) :
    Respects R StagedScript.anything (l.forM f) := by
  induction l with
  | nil => exact .pure trivial
  | cons a l ih =>
    exact (hf a (by simp)).bind fun _ _ => ih fun c hc => hf c (List.mem_cons_of_mem _ hc)

theorem foldlM {l : List γ} {f : α → γ → EStateM ε Store α}
    (hf : ∀ b, Q b → ∀ a ∈ l, Respects R Q (f b a)) {b : α} (hb : Q b) :
    Respects R Q (l.foldlM f b) := by
  induction l generalizing b with
  | nil => exact .pure hb
  | cons a l ih =>
    rw [List.foldlM_cons]
    exact (hf b hb a (by simp)).bind fun c hc =>
      ih (fun d hd e he => hf d hd e (List.mem_cons_of_mem _ he)) hc

end Respects

/-! ## Stores that differ in the bodies of functions -/

/-- The functions differ at most in what they were defined by, and their bodies start with the same
text, if with any. -/
structure Function.Twin (f g : Function) : Prop where
  eq : g = { f with definition := g.definition }
  doc : g.doc? = f.doc?

/-- The stores differ at most in the definitions of their functions; hidden functions have the same
name all the same. -/
structure Store.Twin (h : Hidden) (s t : Store) : Prop where
  eq : t = { s with functions := t.functions }
  names : ∀ r, (t.getFunction? r).map Function.name = (s.getFunction? r).map Function.name
  functions : ∀ r, ¬ h.functions r → ∀ f, s.getFunction? r = some f →
    ∃ g, t.getFunction? r = some g ∧ f.Twin g

/-- The change of a store concerns neither functions nor namespaces. -/
structure Quiet (g : Store → Store) : Prop where
  functions : ∀ s fs, g { s with functions := fs } = { g s with functions := fs }
  namespaces : ∀ s, (g s).namespaces = s.namespaces

theorem Quiet.functions_eq {g : Store → Store} (hg : Quiet g) (s : Store) :
    (g s).functions = s.functions := by
  have h : g s = { g s with functions := s.functions } := hg.functions s s.functions
  rw [h]

/-- The relation holds between stores that differ in definitions alone and lead to nothing that is
hidden, and it is kept by changes that concern neither functions nor namespaces. -/
structure Kinship (h : Hidden) (R : Store → Store → Prop) : Prop where
  twin : ∀ {s t}, R s t → s.Twin h t
  avoids : ∀ {s t}, R s t → s.Avoids h
  change : ∀ {g : Store → Store}, Quiet g → ∀ {s t}, R s t → (g s).Avoids h → R (g s) (g t)

namespace Kinship

variable {h : Hidden} (K : Kinship h R)
include K

theorem changing {g : Store → Store} (hg : Quiet g) (ha : ∀ s, s.Avoids h → (g s).Avoids h) :
    Respects R anything (modify g : Run PUnit) :=
  fun _ _ hst => .ok ⟨rfl, trivial⟩ (K.change hg hst (ha _ (K.avoids hst)))

theorem make {f : Store → α × Store} {P : α → Prop} (hf : Quiet fun s => (f s).2)
    (hfst : ∀ s fs, (f { s with functions := fs }).1 = (f s).1)
    (ha : ∀ s, s.Avoids h → P (f s).1 ∧ (f s).2.Avoids h) : Respects R P (Run.make f) := by
  intro s t hst
  have h1 : (f t).1 = (f s).1 := by rw [(K.twin hst).eq, hfst]
  obtain ⟨hP, hs⟩ := ha s (K.avoids hst)
  exact .ok ⟨h1.symm, hP⟩ (K.change hf hst hs)

/-- What does not depend on functions is seen alike in related stores. -/
theorem view {f : Store → α} {P : α → Prop} (hf : ∀ s fs, f { s with functions := fs } = f s)
    (ha : ∀ s, s.Avoids h → P (f s)) : Respects R P (Run.view f) := by
  refine .view fun s t hst => ⟨?_, ha s (K.avoids hst)⟩
  rw [(K.twin hst).eq, hf]

end Kinship

end StagedScript
