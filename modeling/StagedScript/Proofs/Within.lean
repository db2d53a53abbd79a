import StagedScript.Script.Basic
import StagedScript.Tree.Names
import StagedScript.Tree.Target

/-!
# What is within statements

The statements that stand within others, at any depth, the names that are mentioned there, and what
is assigned to.
-/

namespace StagedScript

theorem append_subset_append {α : Type} {as bs cs ds : List α} (h : as ⊆ cs) (h' : bs ⊆ ds) :
    as ++ bs ⊆ cs ++ ds :=
  List.append_subset.2 ⟨List.subset_append_of_subset_left _ h,
    List.subset_append_of_subset_right _ h'⟩

namespace Expr

mutual

/-- An assignment to an expression reads no names but those that the expression reads. -/
theorem storeReads_subset_reads (e : Expr) : e.storeReads ⊆ e.reads := by
  cases e with
  | name span x => exact List.nil_subset _
  | tuple span es | list span es => exact storeReadsAll_subset_readsAll es
  | _ => exact fun _ => id

theorem storeReadsAll_subset_readsAll (es : List Expr) : storeReadsAll es ⊆ readsAll es := by
  cases es with
  | nil => exact fun _ => id
  | cons e es =>
    exact append_subset_append (storeReads_subset_reads e) (storeReadsAll_subset_readsAll es)

end

end Expr

namespace Stmt

/-! ## Statements within statements -/

mutual

/-- A statement and the statements within it, in the order of the text. -/
def within : Stmt → List Stmt
  | cond s t a b => cond s t a b :: (withinAll a ++ withinAll b)
  | loop s t b => loop s t b :: withinAll b
  | each s x i b e => each s x i b e :: (withinAll b ++ withinAll e)
  | define s n ds ps b => define s n ds ps b :: withinAll b
  | class_ s n base b => class_ s n base b :: withinAll b
  | s => [s]

/-- Statements and the statements within them. -/
def withinAll : List Stmt → List Stmt
  | [] => []
  | s :: ss => within s ++ withinAll ss

end

/-- Whether the statement defines a function. -/
def isDefinition : Stmt → Bool
  | define .. => true
  | _ => false

/-- Whether a statement has no block. -/
def isSimple : Stmt → Bool
  | expr _ _ | assign _ _ _ | pass _ | ret _ _ | brk _ | cont _ => true
  | cond _ _ _ _ | loop _ _ _ | each _ _ _ _ _ | define _ _ _ _ _ | class_ _ _ _ _ => false

theorem within_of_isSimple {s : Stmt} (h : s.isSimple = true) : s.within = [s] := by
  cases s with
  | expr | assign | pass | ret | brk | cont => rfl
  | _ => cases h

theorem isDefinition_of_isSimple {s : Stmt} (h : s.isSimple = true) : s.isDefinition = false := by
  cases s with
  | define => cases h
  | _ => rfl

theorem withinAll_append (ss ts : List Stmt) :
    withinAll (ss ++ ts) = withinAll ss ++ withinAll ts := by
  induction ss with
  | nil => rfl
  | cons s ss ih => rw [List.cons_append, withinAll, ih, withinAll, List.append_assoc]

mutual

theorem within_subset {s : Stmt} : ∀ {t : Stmt}, t ∈ s.within → t.within ⊆ s.within := by
  intro t ht
  cases s with
  | expr | assign | ret | pass | brk | cont =>
    obtain rfl := List.mem_singleton.1 ht
    exact fun _ => id
  | cond span e a b | each span x e a b =>
    rcases List.mem_cons.1 ht with rfl | ht
    · exact fun _ => id
    refine List.subset_cons_of_subset _ ?_
    rcases List.mem_append.1 ht with ht | ht
    · exact List.subset_append_of_subset_left _ (within_subset_withinAll ht)
    · exact List.subset_append_of_subset_right _ (within_subset_withinAll ht)
  | loop span e b | define span x ds ps b | class_ span x e b =>
    rcases List.mem_cons.1 ht with rfl | ht
    · exact fun _ => id
    exact List.subset_cons_of_subset _ (within_subset_withinAll ht)

/-- What is within a statement is within the statements that it is within. -/
theorem within_subset_withinAll {ss : List Stmt} :
    ∀ {t : Stmt}, t ∈ withinAll ss → t.within ⊆ withinAll ss := by
  intro t ht
  cases ss with
  | nil => cases ht
  | cons s ss =>
    rcases List.mem_append.1 ht with ht | ht
    · exact List.subset_append_of_subset_left _ (within_subset ht)
    · exact List.subset_append_of_subset_right _ (within_subset_withinAll ht)

end

/-- The body of a definition is within the statements that the definition is within. -/
theorem withinAll_subset_of_define {ss b : List Stmt} {span : Span} {x : String} {ds : List Expr}
    {ps : List (Param Expr)} (h : define span x ds ps b ∈ withinAll ss) :
    withinAll b ⊆ withinAll ss :=
  List.Subset.trans (List.subset_cons_self _ _) (within_subset_withinAll h)

mutual

theorem placed_of_within {c : Surroundings} {s : Stmt} (hs : misplaced? c s = none) {span : Span}
    {x : String} {ds : List Expr} {ps : List (Param Expr)} {b : List Stmt} :
    define span x ds ps b ∈ s.within → misplacedIn? .function b = none := by
  intro h
  cases s with
  | expr | assign | ret | pass | brk | cont => cases List.mem_singleton.1 h
  | cond span e a b | each span x e a b =>
    obtain ⟨ha, hb⟩ := Option.or_eq_none_iff.1 hs
    rcases List.mem_cons.1 h with h | h
    · cases h
    rcases List.mem_append.1 h with h | h
    · exact placed_of_withinAll ha h
    · exact placed_of_withinAll hb h
  | loop span e b | class_ span x e b =>
    rcases List.mem_cons.1 h with h | h
    · cases h
    exact placed_of_withinAll (c := _) hs h
  | define span x ds ps b =>
    rcases List.mem_cons.1 h with h | h
    · cases h
      exact hs
    · exact placed_of_withinAll (c := .function) hs h

/-- Where all control statements stand where they may, so do those of every function that is
defined. -/
theorem placed_of_withinAll {c : Surroundings} {ss : List Stmt} (hss : misplacedIn? c ss = none)
    {span : Span} {x : String} {ds : List Expr} {ps : List (Param Expr)} {b : List Stmt} :
    define span x ds ps b ∈ withinAll ss → misplacedIn? .function b = none := by
  intro h
  cases ss with
  | nil => cases h
  | cons s ss =>
    obtain ⟨hs, hss⟩ := Option.or_eq_none_iff.1 hss
    rcases List.mem_append.1 h with h | h
    · exact placed_of_within hs h
    · exact placed_of_withinAll hss h

end

/-! ## Names -/

mutual

/-- The names that a statement mentions, those within the functions and classes that it defines
included. -/
def mentions : Stmt → List String
  | expr _ e => e.reads
  | assign _ ts v => Expr.readsAll ts ++ v.reads
  | ret _ v => v.elim [] Expr.reads
  | cond _ t a b => t.reads ++ (mentionsAll a ++ mentionsAll b)
  | loop _ t b => t.reads ++ mentionsAll b
  | each _ t i b e => t.reads ++ i.reads ++ (mentionsAll b ++ mentionsAll e)
  | define _ x ds ps b =>
    x :: (Expr.readsAll ds ++ (Param.names ps ++ Param.reads ps)) ++ mentionsAll b
  | class_ _ x base b => x :: base.elim [] Expr.reads ++ mentionsAll b
  | pass _ | brk _ | cont _ => []

/-- The names that statements mention. -/
def mentionsAll : List Stmt → List String
  | [] => []
  | s :: ss => mentions s ++ mentionsAll ss

end

theorem mentionsAll_append (ss ts : List Stmt) :
    mentionsAll (ss ++ ts) = mentionsAll ss ++ mentionsAll ts := by
  induction ss with
  | nil => rfl
  | cons s ss ih => rw [List.cons_append, mentionsAll, ih, mentionsAll, List.append_assoc]

mutual

/-- What stands within a statement mentions no names but such as the statement mentions. -/
theorem mentions_within {s : Stmt} : ∀ {t : Stmt}, t ∈ s.within → t.mentions ⊆ s.mentions := by
  intro t ht
  cases s with
  | expr | assign | ret | pass | brk | cont =>
    obtain rfl := List.mem_singleton.1 ht
    exact fun _ => id
  | cond span e a b =>
    rcases List.mem_cons.1 ht with rfl | ht
    · exact fun _ => id
    refine List.subset_append_of_subset_right _ ?_
    rcases List.mem_append.1 ht with ht | ht
    · exact List.subset_append_of_subset_left _ (mentions_withinAll ht)
    · exact List.subset_append_of_subset_right _ (mentions_withinAll ht)
  | each span x e a b =>
    rcases List.mem_cons.1 ht with rfl | ht
    · exact fun _ => id
    refine List.subset_append_of_subset_right _ ?_
    rcases List.mem_append.1 ht with ht | ht
    · exact List.subset_append_of_subset_left _ (mentions_withinAll ht)
    · exact List.subset_append_of_subset_right _ (mentions_withinAll ht)
  | loop span e b | define span x ds ps b | class_ span x e b =>
    rcases List.mem_cons.1 ht with rfl | ht
    · exact fun _ => id
    exact List.subset_append_of_subset_right _ (mentions_withinAll ht)

theorem mentions_withinAll {ss : List Stmt} :
    ∀ {t : Stmt}, t ∈ withinAll ss → t.mentions ⊆ mentionsAll ss := by
  intro t ht
  cases ss with
  | nil => cases ht
  | cons s ss =>
    rcases List.mem_append.1 ht with ht | ht
    · exact List.subset_append_of_subset_left _ (mentions_within ht)
    · exact List.subset_append_of_subset_right _ (mentions_withinAll ht)

end

mutual

/-- The names that a statement reads are among those that it mentions. -/
theorem reads_subset_mentions (s : Stmt) : s.reads ⊆ s.mentions := by
  intro x hx
  cases s with
  | expr | ret | pass | brk | cont => exact hx
  | assign span ts v =>
    rcases List.mem_append.1 hx with hx | hx
    · exact List.mem_append_right _ hx
    · exact List.mem_append_left _ (Expr.storeReadsAll_subset_readsAll ts hx)
  | cond span t a b =>
    simp only [reads, mentions, List.mem_append, or_assoc] at hx ⊢
    exact hx.imp_right (Or.imp (readsAll_subset_mentionsAll a ·) (readsAll_subset_mentionsAll b ·))
  | loop span t b =>
    simp only [reads, mentions, List.mem_append] at hx ⊢
    exact hx.imp_right (readsAll_subset_mentionsAll b ·)
  | each span t i b e =>
    simp only [reads, mentions, List.mem_append, or_assoc] at hx ⊢
    rcases hx with hx | hx | hx | hx
    · exact .inr (.inl hx)
    · exact .inl (Expr.storeReads_subset_reads t hx)
    · exact .inr (.inr (.inl (readsAll_subset_mentionsAll b hx)))
    · exact .inr (.inr (.inr (readsAll_subset_mentionsAll e hx)))
  | define span name ds ps b =>
    simp only [reads, mentions, List.mem_append, List.mem_cons, or_assoc] at hx ⊢
    rcases hx with hx | hx | hx
    · exact .inr (.inl hx)
    · exact .inr (.inr (.inr (.inl hx)))
    · exact .inr (.inr (.inr (.inr (readsAll_subset_mentionsAll b (List.mem_filter.1 hx).1))))
  | class_ span name base b =>
    simp only [reads, mentions, List.mem_append, List.mem_cons, or_assoc] at hx ⊢
    rcases hx with hx | hx
    · exact .inr (.inl hx)
    · exact .inr (.inr (readsAll_subset_mentionsAll b (List.mem_filter.1 hx).1))

theorem readsAll_subset_mentionsAll (ss : List Stmt) : readsAll ss ⊆ mentionsAll ss := by
  cases ss with
  | nil => exact fun _ => id
  | cons s ss =>
    exact append_subset_append (reads_subset_mentions s) (readsAll_subset_mentionsAll ss)

end

theorem freeNames_subset_mentionsAll (d : Definition) : d.freeNames ⊆ mentionsAll d.body := by
  intro x hx
  have hx := (List.mem_filter.1 (List.mem_eraseDups.1 hx)).1
  exact readsAll_subset_mentionsAll d.body hx

/-! ## Targets -/

end Stmt

/-- What can be assigned to: names, attributes, subscripts, and tuples and lists of such that are
not empty. -/
inductive Expr.Target : Expr → Prop
  | name (span : Span) (x : String) : Target (.name span x)
  | attr (span : Span) (o : Expr) (x : String) : Target (.attr span o x)
  | subscript (span : Span) (o i : Expr) : Target (.subscript span o i)
  | tuple {span : Span} {es : List Expr} : es ≠ [] → (∀ e ∈ es, Target e) → Target (.tuple span es)
  | list {span : Span} {es : List Expr} : es ≠ [] → (∀ e ∈ es, Target e) → Target (.list span es)

namespace Expr

mutual

/-- Reading accepts what can be assigned to. -/
theorem targetFault?_eq_none_iff (e : Expr) : e.targetFault? = none ↔ e.Target := by
  cases e with
  | name span x => exact ⟨fun _ => .name span x, fun _ => rfl⟩
  | attr span o x => exact ⟨fun _ => .attr span o x, fun _ => rfl⟩
  | subscript span o i => exact ⟨fun _ => .subscript span o i, fun _ => rfl⟩
  | tuple span es =>
    cases es with
    | nil => exact ⟨nofun, fun | .tuple hne _ => absurd rfl hne⟩
    | cons e es =>
      rw [targetFault?, targetFaults?_eq_none_iff]
      exact ⟨.tuple (List.cons_ne_nil e es), fun | .tuple _ h => h⟩
  | list span es =>
    cases es with
    | nil => exact ⟨nofun, fun | .list hne _ => absurd rfl hne⟩
    | cons e es =>
      rw [targetFault?, targetFaults?_eq_none_iff]
      exact ⟨.list (List.cons_ne_nil e es), fun | .list _ h => h⟩
  | _ => exact ⟨nofun, nofun⟩

theorem targetFaults?_eq_none_iff (es : List Expr) :
    targetFaults? es = none ↔ ∀ e ∈ es, e.Target := by
  cases es with
  | nil => exact ⟨fun _ _ he => absurd he List.not_mem_nil, fun _ => rfl⟩
  | cons e es =>
    rw [targetFaults?, Option.or_eq_none_iff, targetFault?_eq_none_iff, targetFaults?_eq_none_iff,
      List.forall_mem_cons]

end

end Expr

namespace Stmt

/-- What a statement assigns to, short of the statements within it. -/
def targets : Stmt → List Expr
  | assign _ ts _ => ts
  | each _ t _ _ _ => [t]
  | _ => []

/-! ## Statements without `while` loops -/

/-- Whether the statement is a `while` loop. -/
def isLoop : Stmt → Bool
  | loop .. => true
  | _ => false

/-- Neither the statements nor any that stand within them, in functions and classes as well, are
`while` loops. -/
def Loopless (ss : List Stmt) : Prop := ∀ s ∈ withinAll ss, s.isLoop = false

instance (ss : List Stmt) : Decidable (Loopless ss) :=
  inferInstanceAs (Decidable (∀ s ∈ withinAll ss, s.isLoop = false))

namespace Loopless

variable {a b : List Stmt} {span : Span} {e : Expr}

theorem nil : Loopless [] := fun _ hs => absurd hs List.not_mem_nil

@[simp] theorem append_iff : Loopless (a ++ b) ↔ Loopless a ∧ Loopless b := by
  rw [Loopless, withinAll_append]
  exact List.forall_mem_append

theorem cons_iff {s : Stmt} {ss : List Stmt} : Loopless (s :: ss) ↔ Loopless [s] ∧ Loopless ss :=
  append_iff (a := [s])

attribute [local simp] withinAll within isLoop

@[simp] theorem cond_iff : Loopless [.cond span e a b] ↔ Loopless a ∧ Loopless b := by
  simp [Loopless, or_imp, forall_and]

@[simp] theorem not_loop : ¬ Loopless [.loop span e a] := by
  simp [Loopless]

@[simp] theorem each_iff {target : Expr} :
    Loopless [.each span target e a b] ↔ Loopless a ∧ Loopless b := by
  simp [Loopless, or_imp, forall_and]

@[simp] theorem define_iff {x : String} {ds : List Expr} {ps : List (Param Expr)} :
    Loopless [.define span x ds ps a] ↔ Loopless a := by
  simp [Loopless]

@[simp] theorem class_iff {x : String} {base : Option Expr} :
    Loopless [.class_ span x base a] ↔ Loopless a := by
  simp [Loopless]

end Loopless

end Stmt

end StagedScript
