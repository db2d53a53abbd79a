import StagedScript.Proofs.Parsing.OneLine
import StagedScript.Proofs.Within

/-!
# What does not depend on spans

Trees that differ in their spans alone read and bind the same names, have the same statements within
them, and are placed alike.
-/

namespace StagedScript

variable (f : Span → Span)

/-! ## Expressions -/

namespace Expr

mutual

theorem mapSpan_id (e : Expr) : e.mapSpan id = e := by
  cases e with
  | int | float | str | bool | none_ | name => rfl
  | tuple _ es | list _ es => exact congrArg _ (mapSpans_id es)
  | dict _ es => exact congrArg _ (mapEntrySpans_id es)
  | unary _ _ e | attr _ e _ => simp only [mapSpan, mapSpan_id e, id]
  | binary _ _ l r | logical _ _ l r | compare _ _ l r | subscript _ l r =>
    simp only [mapSpan, mapSpan_id l, mapSpan_id r, id]
  | call _ g args => simp only [mapSpan, mapSpan_id g, mapArgSpans_id args, id]

theorem mapSpans_id (es : List Expr) : mapSpans id es = es := by
  cases es with
  | nil => rfl
  | cons e es => exact congrArg₂ List.cons (mapSpan_id e) (mapSpans_id es)

theorem mapEntrySpans_id (es : List (Expr × Expr)) : mapEntrySpans id es = es := by
  cases es with
  | nil => rfl
  | cons e es =>
    obtain ⟨k, v⟩ := e
    exact congrArg₂ List.cons (congrArg₂ Prod.mk (mapSpan_id k) (mapSpan_id v))
      (mapEntrySpans_id es)

theorem mapArgSpans_id (args : List (Arg Expr)) : mapArgSpans id args = args := by
  cases args with
  | nil => rfl
  | cons arg args =>
    obtain ⟨role, e⟩ := arg
    exact congrArg₂ List.cons (congrArg (Arg.mk role) (mapSpan_id e)) (mapArgSpans_id args)

end

mutual

theorem stores_mapSpan (e : Expr) : (e.mapSpan f).stores = e.stores := by
  cases e with
  | tuple _ es | list _ es => exact storesAll_mapSpans es
  | _ => rfl

theorem storesAll_mapSpans (es : List Expr) : storesAll (mapSpans f es) = storesAll es := by
  cases es with
  | nil => rfl
  | cons e es => exact congrArg₂ (· ++ ·) (stores_mapSpan e) (storesAll_mapSpans es)

end

mutual

theorem reads_mapSpan (e : Expr) : (e.mapSpan f).reads = e.reads := by
  cases e with
  | int | float | str | bool | none_ | name => rfl
  | tuple _ es | list _ es => exact readsAll_mapSpans es
  | dict _ es => exact readsEntries_mapEntrySpans es
  | unary _ _ e | attr _ e _ => exact reads_mapSpan e
  | binary _ _ l r | logical _ _ l r | compare _ _ l r | subscript _ l r =>
    exact congrArg₂ (· ++ ·) (reads_mapSpan l) (reads_mapSpan r)
  | call _ g args => exact congrArg₂ (· ++ ·) (reads_mapSpan g) (readsArgs_mapArgSpans args)

theorem readsAll_mapSpans (es : List Expr) : readsAll (mapSpans f es) = readsAll es := by
  cases es with
  | nil => rfl
  | cons e es => exact congrArg₂ (· ++ ·) (reads_mapSpan e) (readsAll_mapSpans es)

theorem readsEntries_mapEntrySpans (es : List (Expr × Expr)) :
    readsEntries (mapEntrySpans f es) = readsEntries es := by
  cases es with
  | nil => rfl
  | cons e es =>
    obtain ⟨k, v⟩ := e
    exact congrArg₂ (· ++ ·) (congrArg₂ (· ++ ·) (reads_mapSpan k) (reads_mapSpan v))
      (readsEntries_mapEntrySpans es)

theorem readsArgs_mapArgSpans (args : List (Arg Expr)) :
    readsArgs (mapArgSpans f args) = readsArgs args := by
  cases args with
  | nil => rfl
  | cons arg args =>
    obtain ⟨role, e⟩ := arg
    exact congrArg₂ (· ++ ·) (reads_mapSpan e) (readsArgs_mapArgSpans args)

end

mutual

theorem storeReads_mapSpan (e : Expr) : (e.mapSpan f).storeReads = e.storeReads := by
  cases e with
  | tuple _ es | list _ es => exact storeReadsAll_mapSpans es
  | name => rfl
  | _ => exact reads_mapSpan f _

theorem storeReadsAll_mapSpans (es : List Expr) :
    storeReadsAll (mapSpans f es) = storeReadsAll es := by
  cases es with
  | nil => rfl
  | cons e es => exact congrArg₂ (· ++ ·) (storeReads_mapSpan e) (storeReadsAll_mapSpans es)

end

end Expr

namespace Param

theorem mapSpan_id (p : Param Expr) : p.mapSpan id = p := by
  obtain ⟨name, kind⟩ := p
  cases kind with
  | plain default? =>
    cases default? with
    | none => rfl
    | some e => exact congrArg (fun e => Param.mk name (.plain (some e))) e.mapSpan_id
  | _ => rfl

theorem names_mapSpans (ps : List (Param Expr)) : names (ps.map (mapSpan f)) = names ps := by
  simp [names, Function.comp_def, name_mapSpan]

theorem reads_mapSpans (ps : List (Param Expr)) : reads (ps.map (mapSpan f)) = reads ps := by
  have hone (p : Param Expr) : (p.mapSpan f).default?.elim [] Expr.reads =
      p.default?.elim [] Expr.reads := by
    rw [default?_mapSpan]
    cases p.default? with
    | none => rfl
    | some e => exact e.reads_mapSpan f
  simp [reads, List.flatMap_map, hone]

/-- Parameters that differ in their spans alone have defaults alike. -/
theorem default?_eq_none_mapSpans {ps : List (Param Expr)} :
    (∀ p ∈ ps.map (mapSpan f), p.default? = none) ↔ ∀ p ∈ ps, p.default? = none := by
  simp [default?_mapSpan]

end Param

/-! ## Statements -/

namespace Stmt

theorem span_mapSpan (s : Stmt) : (s.mapSpan f).span = f s.span := by
  cases s <;> rfl

mutual

/-- A statement whose spans stay what they are stays what it is. -/
theorem mapSpan_id (s : Stmt) : s.mapSpan id = s := by
  have hoption (e? : Option Expr) : e?.map (Expr.mapSpan id) = e? := by
    cases e? with
    | none => rfl
    | some e => exact congrArg some e.mapSpan_id
  cases s with
  | expr _ e => exact congrArg _ e.mapSpan_id
  | assign _ es e => simp only [mapSpan, Expr.mapSpans_id, e.mapSpan_id, id]
  | ret _ e? => simp only [mapSpan, hoption, id]
  | pass | brk | cont => rfl
  | cond _ e a b => simp only [mapSpan, e.mapSpan_id, mapSpans_id a, mapSpans_id b, id]
  | loop _ e b => simp only [mapSpan, e.mapSpan_id, mapSpans_id b, id]
  | each _ x i b e =>
    simp only [mapSpan, x.mapSpan_id, i.mapSpan_id, mapSpans_id b, mapSpans_id e, id]
  | define _ _ ds ps b =>
    have hparams : ps.map (Param.mapSpan id) = ps := List.map_id'' Param.mapSpan_id ps
    simp only [mapSpan, Expr.mapSpans_id, hparams, mapSpans_id b, id]
  | class_ _ _ base b => simp only [mapSpan, hoption, mapSpans_id b, id]

theorem mapSpans_id (ss : List Stmt) : mapSpans id ss = ss := by
  cases ss with
  | nil => rfl
  | cons s ss => exact congrArg₂ List.cons (mapSpan_id s) (mapSpans_id ss)

end

mutual

theorem binds_mapSpan (s : Stmt) : (s.mapSpan f).binds = s.binds := by
  cases s with
  | assign _ ts _ => exact Expr.storesAll_mapSpans f ts
  | each _ t _ b e =>
    exact congrArg₂ (· ++ ·) (congrArg₂ (· ++ ·) (t.stores_mapSpan f) (bindsAll_mapSpans b))
      (bindsAll_mapSpans e)
  | cond _ _ a b => exact congrArg₂ (· ++ ·) (bindsAll_mapSpans a) (bindsAll_mapSpans b)
  | loop _ _ b => exact bindsAll_mapSpans b
  | _ => rfl

theorem bindsAll_mapSpans (ss : List Stmt) : bindsAll (mapSpans f ss) = bindsAll ss := by
  cases ss with
  | nil => rfl
  | cons s ss => exact congrArg₂ (· ++ ·) (binds_mapSpan s) (bindsAll_mapSpans ss)

end

mutual

theorem reads_mapSpan (s : Stmt) : (s.mapSpan f).reads = s.reads := by
  have hoption (e? : Option Expr) : (e?.map (Expr.mapSpan f)).elim [] Expr.reads =
      e?.elim [] Expr.reads := by
    cases e? with
    | none => rfl
    | some e => exact e.reads_mapSpan f
  cases s with
  | expr _ e => exact e.reads_mapSpan f
  | assign _ ts v => exact congrArg₂ (· ++ ·) (v.reads_mapSpan f) (Expr.storeReadsAll_mapSpans f ts)
  | ret _ v => exact hoption v
  | cond _ t a b =>
    simp only [mapSpan, reads, t.reads_mapSpan f, readsAll_mapSpans a, readsAll_mapSpans b]
  | loop _ t b => simp only [mapSpan, reads, t.reads_mapSpan f, readsAll_mapSpans b]
  | each _ t i b e =>
    simp only [mapSpan, reads, i.reads_mapSpan f, t.storeReads_mapSpan f, readsAll_mapSpans b,
      readsAll_mapSpans e]
  | define _ _ ds ps b =>
    simp only [mapSpan, reads, Expr.readsAll_mapSpans, Param.reads_mapSpans, Param.names_mapSpans,
      bindsAll_mapSpans, readsAll_mapSpans b]
  | class_ _ _ base b => simp only [mapSpan, reads, hoption, bindsAll_mapSpans, readsAll_mapSpans b]
  | pass | brk | cont => rfl

theorem readsAll_mapSpans (ss : List Stmt) : readsAll (mapSpans f ss) = readsAll ss := by
  cases ss with
  | nil => rfl
  | cons s ss => exact congrArg₂ (· ++ ·) (reads_mapSpan s) (readsAll_mapSpans ss)

end

mutual

theorem within_mapSpan (s : Stmt) : (s.mapSpan f).within = s.within.map (mapSpan f) := by
  cases s with
  | expr | assign | ret | pass | brk | cont => rfl
  | cond _ _ a b | each _ _ _ a b =>
    simp only [mapSpan, within, List.map_cons, List.map_append, withinAll_mapSpans a,
      withinAll_mapSpans b]
  | loop _ _ b | define _ _ _ _ b | class_ _ _ _ b =>
    simp only [mapSpan, within, List.map_cons, withinAll_mapSpans b]

theorem withinAll_mapSpans (ss : List Stmt) :
    withinAll (mapSpans f ss) = (withinAll ss).map (mapSpan f) := by
  cases ss with
  | nil => rfl
  | cons s ss =>
    rw [mapSpans, withinAll, withinAll, List.map_append, within_mapSpan s, withinAll_mapSpans ss]

end

mutual

theorem isNone_misplaced?_mapSpan (c : Surroundings) (s : Stmt) :
    (misplaced? c (s.mapSpan f)).isNone = (misplaced? c s).isNone := by
  cases s with
  | expr | assign | pass => rfl
  | ret | brk | cont =>
    simp only [mapSpan, misplaced?]
    split <;> rfl
  | cond _ _ a b | each _ _ _ a b =>
    simp only [mapSpan, misplaced?, Option.isNone_or, isNone_misplacedIn?_mapSpans _ a,
      isNone_misplacedIn?_mapSpans _ b]
  | loop _ _ b | define _ _ _ _ b | class_ _ _ _ b => exact isNone_misplacedIn?_mapSpans _ b

/-- Control statements are misplaced alike. -/
theorem isNone_misplacedIn?_mapSpans (c : Surroundings) (ss : List Stmt) :
    (misplacedIn? c (mapSpans f ss)).isNone = (misplacedIn? c ss).isNone := by
  cases ss with
  | nil => rfl
  | cons s ss =>
    simp only [mapSpans, misplacedIn?, Option.isNone_or, isNone_misplaced?_mapSpan c s,
      isNone_misplacedIn?_mapSpans c ss]

end

end Stmt

/-! ## Definitions -/

namespace Definition

/-- The definition with every span changed. -/
def mapSpan (d : Definition) : Definition :=
  ⟨d.name, Expr.mapSpans f d.decorators, d.params.map (Param.mapSpan f), Stmt.mapSpans f d.body⟩

/-- The definition with every span forgotten. -/
def bare (d : Definition) : Definition := d.mapSpan fun _ => ⟨0, 0⟩

theorem freeNames_mapSpan (d : Definition) : (d.mapSpan f).freeNames = d.freeNames := by
  simp only [freeNames, mapSpan, Param.names_mapSpans, Stmt.bindsAll_mapSpans,
    Stmt.readsAll_mapSpans]

/-- Definitions that differ in their spans alone need the same names from outside. -/
theorem freeNames_eq_of_bare {d e : Definition} (h : d.bare = e.bare) :
    d.freeNames = e.freeNames := by
  rw [← freeNames_mapSpan (fun _ => ⟨0, 0⟩) d, ← freeNames_mapSpan (fun _ => ⟨0, 0⟩) e]
  exact congrArg freeNames h

/-- Definitions that differ in their spans alone have misplaced statements alike. -/
theorem misplacedIn?_of_bare {d e : Definition} (h : d.bare = e.bare) (c : Surroundings) :
    Stmt.misplacedIn? c d.body = none ↔ Stmt.misplacedIn? c e.body = none := by
  rw [← Option.isNone_iff_eq_none, ← Option.isNone_iff_eq_none,
    ← Stmt.isNone_misplacedIn?_mapSpans (fun _ => ⟨0, 0⟩) c d.body,
    ← Stmt.isNone_misplacedIn?_mapSpans (fun _ => ⟨0, 0⟩) c e.body]
  exact Bool.eq_iff_iff.1 (congrArg (fun d => (Stmt.misplacedIn? c d.body).isNone) h)

/-- Definitions that differ in their spans alone have defaults alike. -/
theorem defaults_of_bare {d e : Definition} (h : d.bare = e.bare) :
    (∀ p ∈ d.params, p.default? = none) ↔ ∀ p ∈ e.params, p.default? = none := by
  have hiff := iff_of_eq (congrArg (fun d => ∀ p ∈ Definition.params d, p.default? = none) h)
  exact (Param.default?_eq_none_mapSpans _).symm.trans
    (hiff.trans (Param.default?_eq_none_mapSpans _))

end Definition

end StagedScript
