import StagedScript.Proofs.Showing.Reaching

/-!
# Showing by a guard on containers

The text of a value can be made by going through all that it holds, with a stack of the containers
that are being shown: a container is put on the stack while its items are shown, and is cut short
when it comes up again.  This ends on every store, however its containers hold each other, and
leaves the stack as it was; and the text is the one that is made from the shape of the value.
-/

namespace StagedScript

/-- Making a text with a stack of containers.  It fails when its calls are used up. -/
abbrev Rendering := StateT (List Container) Option

namespace Rendering

variable {α β γ : Type} {x : Rendering α} {active active' : List Container}

theorem bind_of_some {f : α → Rendering β} {a : α} (hx : x active = some (a, active')) :
    (x >>= f) active = f a active' := by
  change (x active).bind (fun p => f p.1 p.2) = _
  rw [hx]
  rfl

theorem map_of_some {f : α → β} {a : α} (hx : x active = some (a, active')) :
    (f <$> x) active = some (f a, active') := by
  change (x active).bind (fun p => some (f p.1, p.2)) = _
  rw [hx]
  rfl

/-- Steps that leave the stack as it is do so one after the other. -/
theorem mapM_of_some {f : γ → Rendering α} {g : γ → α} {xs : List γ}
    (h : ∀ x ∈ xs, f x active = some (g x, active)) :
    xs.mapM f active = some (xs.map g, active) := by
  induction xs with
  | nil => rfl
  | cons x xs ih =>
    rw [List.mapM_cons, bind_of_some (h x (by simp)),
      bind_of_some (ih fun y hy => h y (by simp [hy]))]
    rfl

/-- A step that may throw is followed by a change of what it gives, if it gives something. -/
theorem run_map_of_some {ε : Type} {f : α → β} {x : ExceptT ε Rendering α} {r : Except ε α}
    (hx : x.run active = some (r, active')) : (f <$> x).run active = some (r.map f, active') := by
  rw [ExceptT.run_map]
  exact map_of_some hx

/-- A step that may throw is followed by the next one if it does not. -/
theorem run_bind_of_some {ε : Type} {f : α → ExceptT ε Rendering β} {x : ExceptT ε Rendering α}
    {g : α → Except ε β} {r : Except ε α} (hx : x.run active = some (r, active))
    (hf : ∀ a, (f a).run active = some (g a, active)) :
    (x >>= f).run active = some (r.bind g, active) := by
  rw [ExceptT.run_bind, bind_of_some hx]
  cases r with
  | ok a => exact hf a
  | error e => rfl

end Rendering

/-- Every template that starts with a percent sign is one of the cases before the last. -/
theorem Percent.ne_percent {α : Type} {c : Char} {cs : List Char} {args : List α}
    (hend : c = '%' → cs = [] → False) (hnone : ∀ d ds, args = [] → c = '%' → cs = d :: ds → False)
    (hmore : ∀ d ds a as, args = a :: as → c = '%' → cs = d :: ds → False) : c ≠ '%' := by
  intro hc
  cases cs with
  | nil => exact hend hc rfl
  | cons d ds =>
    cases args with
    | nil => exact hnone d ds rfl hc rfl
    | cons a as => exact hmore d ds a as rfl hc rfl

namespace Store

/-! ## Texts in their places -/

/-- The text of a container that is not cut short, from the texts of what it holds. -/
def fullText (s : Store) (text : Value → String) (c : Container) : String :=
  s.containerText (fun v => (s.shape v).argument fun _ => text v) c

/-- What a value is shown by inside each stack of containers. -/
structure ShownInPlace (s : Store) (text : List Container → Value → String) : Prop where
  /-- What holds nothing is shown alike everywhere. -/
  plain (active : List Container) (v : Value) : (∀ c : Container, v ≠ c.value) →
    (∀ i items, v ≠ .tuple i items) → text active v = s.repr v
  /-- A tuple is shown with its items, which are inside the same containers. -/
  tuple (active : List Container) (i : Nat) (items : List Value) :
    text active (.tuple i items) = Shape.tupleText (items.map (text active))
  /-- A container inside itself is cut short. -/
  again (active : List Container) (c : Container) : c ∈ active →
    text active c.value = Shape.cutText (s.containerType c) c
  /-- Any other container is shown in full, with what it holds inside it. -/
  full (active : List Container) (c : Container) : c ∉ active →
    text active c.value = s.fullText (text (c :: active)) c

/-! ## Going through a value -/

/-- A container is cut short if it is on the stack, and else stands on it while it is shown. -/
def guarded (s : Store) (c : Container) (x : Rendering String) : Rendering String := do
  if c ∈ (← get) then
    return Shape.cutText (s.containerType c) c
  modify (c :: ·)
  let text ← x
  modify (·.erase c)
  return text

/-- An argument of a percent template as a conversion asks for it. -/
def renderAs (s : Store) (render : Value → Rendering String) (c : Char) (v : Value) :
    ExceptT Fault Rendering String :=
  match c with
  | 'r' => render v
  | 's' =>
    match v with
    | .str _ text => return text
    | v => render v
  | 'd' | 'i' =>
    match (s.shape v).integer with
    | .ok text => return text
    | .error type => throw (.typing (.formatNotNumber type))
  | c => throw (.domain (.formatCharacter c))

/-- A percent template, filled conversion by conversion up to the first that fails. -/
def renderTemplate (s : Store) (render : Value → Rendering String) :
    List Char → List Value → ExceptT Fault Rendering (List Char)
  | [], [] => return []
  | [], _ :: _ => throw (.typing .tooManyForFormat)
  | '%' :: '%' :: cs, vs => ('%' :: ·) <$> renderTemplate s render cs vs
  | ['%'], _ => throw (.domain .incompleteFormat)
  | '%' :: _ :: _, [] => throw (.typing .tooFewForFormat)
  | '%' :: c :: cs, v :: vs => do
    let text ← s.renderAs render c v
    let rest ← renderTemplate s render cs vs
    return text.toList ++ rest
  | c :: cs, vs => (c :: ·) <$> renderTemplate s render cs vs

/-- A container that is not cut short, shown with what it holds. -/
def renderFull (s : Store) (render : Value → Rendering String) : Container → Rendering String
  | .list r => do
    let texts ← (s.listItems r).toList.mapM render
    return "[" ++ Shape.commas texts ++ "]"
  | .dict r => do
    let texts ← (s.dictEntries r).entries.mapM fun e => do
      let text ← render e.2
      return strLiteral e.1 ++ ": " ++ text
    return "\x7b" ++ Shape.commas texts ++ "\x7d"
  | .record r => do
    let type := s.typeOf r
    match ← (s.renderTemplate render type.format.toList (s.getRecord r).slots).run with
    | .ok text => return type.name ++ String.ofList text
    | .error _ => return "<" ++ type.name ++ " object>"

/-- The text of a value, made in at most so many calls inside each other. -/
def render (s : Store) : Nat → Value → Rendering String
  | 0, _ => failure
  | n + 1, v =>
    match v with
    | .tuple _ items => Shape.tupleText <$> items.mapM (s.render n)
    | .list r => s.guarded (.list r) (s.renderFull (s.render n) (.list r))
    | .dict r => s.guarded (.dict r) (s.renderFull (s.render n) (.dict r))
    | .record r => s.guarded (.record r) (s.renderFull (s.render n) (.record r))
    | v => return s.repr v

/-- With enough calls the value gets the text, and the stack is left as it was. -/
def Settles (s : Store) (active : List Container) (v : Value) (text : String) : Prop :=
  ∃ n, ∀ m, n ≤ m → s.render m v active = some (text, active)

section

variable {s : Store} {render : Value → Rendering String} {text : Value → String}
  {active : List Container}

/-- What is put on the stack is taken off again. -/
theorem guarded_eq {c : Container} {x : Rendering String} {full : String}
    (hx : c ∉ active → x (c :: active) = some (full, c :: active)) :
    s.guarded c x active =
      some (if c ∈ active then Shape.cutText (s.containerType c) c else full, active) := by
  have hget : (get : Rendering (List Container)) active = some (active, active) := rfl
  unfold guarded
  rw [Rendering.bind_of_some hget]
  by_cases hc : c ∈ active
  · simp only [hc, if_true]
    rfl
  · have hpush : (modify (c :: ·) : Rendering PUnit) active = some (⟨⟩, c :: active) := rfl
    have hpop : (modify (·.erase c) : Rendering PUnit) (c :: active) = some (⟨⟩, active) := by
      change some (PUnit.unit, (c :: active).erase c) = _
      rw [List.erase_cons_head]
    simp only [hc, if_false]
    rw [Rendering.bind_of_some hpush, Rendering.bind_of_some (hx hc), Rendering.bind_of_some hpop]
    rfl

/-- A text is its own text, and any other value has the text that it is shown by. -/
theorem argument_text (v : Value) (repr : Unit → String) :
    ((s.shape v).argument repr).text = match v with | .str _ text => fun _ => text | _ => repr := by
  have hcontainer (c : Container) : ((s.shape c.value).argument repr).text = repr := by
    obtain ⟨depth, -, hshape⟩ := s.exists_shape_container
    rw [hshape]
    cases c <;> rfl
  cases v with
  | list r => exact hcontainer (.list r)
  | dict r => exact hcontainer (.dict r)
  | record r => exact hcontainer (.record r)
  | _ => rfl

theorem renderAs_eq {v : Value} (c : Char) (hv : render v active = some (text v, active)) :
    (s.renderAs render c v).run active =
      some (Percent.convert c ((s.shape v).argument fun _ => text v), active) := by
  have hlift : (liftM (render v) : ExceptT Fault Rendering String).run active =
      some (.ok (text v), active) := Rendering.map_of_some hv
  unfold renderAs
  split
  · exact hlift
  · rw [Percent.convert, argument_text]
    cases v with
    | str i t => rfl
    | _ => exact hlift
  · rw [Percent.convert]
    change _ = some (match (s.shape v).integer with | .ok _ => _ | .error _ => _, active)
    cases (s.shape v).integer <;> rfl
  · rw [Percent.convert]
    change _ = some (match (s.shape v).integer with | .ok _ => _ | .error _ => _, active)
    cases (s.shape v).integer <;> rfl
  · next hr hs hd hi =>
    rw [Percent.convert]
    · rfl
    all_goals assumption

/-- The template is filled as from the texts of its arguments, the failed conversions among them. -/
theorem renderTemplate_eq {vs : List Value} (cs : List Char)
    (h : ∀ v ∈ vs, render v active = some (text v, active)) :
    (s.renderTemplate render cs vs).run active =
      some (Percent.fill cs (vs.map fun v => (s.shape v).argument fun _ => text v), active) := by
  fun_induction renderTemplate s render cs vs with
  | case1 | case2 | case4 => rfl
  | case3 vs cs ih => exact Rendering.run_map_of_some (ih h)
  | case5 c cs hc =>
    rw [List.map_nil, Percent.fill]
    · rfl
    · exact hc
  | case6 c cs v vs hc ih =>
    rw [List.map_cons, Percent.fill]
    · exact Rendering.run_bind_of_some (renderAs_eq c (h v (by simp))) fun _ =>
        Rendering.run_bind_of_some (ih fun w hw => h w (by simp [hw])) fun _ => rfl
    · exact hc
  | case7 c cs vs _ hend hnone hmore ih =>
    have hc : c ≠ '%' := Percent.ne_percent hend hnone hmore
    rw [Percent.fill]
    · exact Rendering.run_map_of_some (ih h)
    all_goals
      intros
      contradiction

/-- A container is shown in full as from the texts of what it holds. -/
theorem renderFull_eq (c : Container)
    (h : ∀ v ∈ s.held c, render v active = some (text v, active)) :
    s.renderFull render c active = some (s.fullText text c, active) := by
  cases c with
  | list r =>
    have hmap : (s.listItems r).toList.mapM render active =
        some ((s.listItems r).toList.map text, active) := Rendering.mapM_of_some h
    rw [renderFull, Rendering.bind_of_some hmap]
    rfl
  | dict r =>
    have hentry : ∀ e ∈ (s.dictEntries r).entries,
        (do let text ← render e.2; return strLiteral e.1 ++ ": " ++ text : Rendering String)
        active =
          some (strLiteral e.1 ++ ": " ++ text e.2, active) := by
      intro e he
      rw [Rendering.bind_of_some (h e.2 (mem_values he))]
      rfl
    rw [renderFull, Rendering.bind_of_some (Rendering.mapM_of_some hentry)]
    rfl
  | record r =>
    have hslots : ∀ v ∈ (s.getRecord r).slots, render v active = some (text v, active) := h
    unfold renderFull fullText containerText Shape.recordText
    dsimp only
    rw [Rendering.bind_of_some (renderTemplate_eq _ hslots)]
    cases Percent.fill (s.typeOf r).format.toList _ <;> rfl

end

section

variable {s : Store} {text : List Container → Value → String} {active : List Container}

theorem render_container (n : Nat) (c : Container) :
    s.render (n + 1) c.value = s.guarded c (s.renderFull (s.render n) c) := by
  cases c <;> rfl

/-- Several values get their texts with as many calls as the one that takes most. -/
theorem exists_settled {vs : List Value} {text : Value → String}
    (h : ∀ v ∈ vs, s.Settles active v (text v)) :
    ∃ n, ∀ m, n ≤ m → ∀ v ∈ vs, s.render m v active = some (text v, active) := by
  induction vs with
  | nil => exact ⟨0, by simp⟩
  | cons v vs ih =>
    obtain ⟨n, hn⟩ := h v (by simp)
    obtain ⟨k, hk⟩ := ih fun w hw => h w (by simp [hw])
    refine ⟨max n k, ?_⟩
    intro m hm w hw
    rcases List.mem_cons.1 hw with rfl | hw
    · exact hn m (by omega)
    · exact hk m (by omega) w hw

theorem settles_of_succ {v : Value} {text : String} (n : Nat)
    (h : ∀ m, n ≤ m → s.render (m + 1) v active = some (text, active)) :
    s.Settles active v text := by
  refine ⟨n + 1, ?_⟩
  intro m hm
  obtain ⟨k, rfl⟩ : ∃ k, m = k + 1 := ⟨m - 1, by omega⟩
  exact h k (by omega)

theorem settles_plain {v : Value} (hcontainer : ∀ c : Container, v ≠ c.value)
    (htuple : ∀ i items, v ≠ .tuple i items) : s.Settles active v (s.repr v) := by
  refine settles_of_succ 0 ?_
  intro m _
  cases v with
  | tuple i items => exact absurd rfl (htuple i items)
  | list r => exact absurd rfl (hcontainer (.list r))
  | dict r => exact absurd rfl (hcontainer (.dict r))
  | record r => exact absurd rfl (hcontainer (.record r))
  | _ => rfl

theorem settles_tuple {i : Nat} {items : List Value} {text : Value → String}
    (h : ∀ v ∈ items, s.Settles active v (text v)) :
    s.Settles active (.tuple i items) (Shape.tupleText (items.map text)) := by
  obtain ⟨n, hn⟩ := exists_settled h
  exact settles_of_succ n fun m hm => Rendering.map_of_some (Rendering.mapM_of_some (hn m hm))

theorem settles_container {c : Container} {text : Value → String}
    (h : c ∉ active → ∀ v ∈ s.held c, s.Settles (c :: active) v (text v)) :
    s.Settles active c.value
      (if c ∈ active then Shape.cutText (s.containerType c) c else s.fullText text c) := by
  by_cases hc : c ∈ active
  · refine settles_of_succ 0 ?_
    intro m _
    rw [render_container]
    exact guarded_eq fun hnew => absurd hc hnew
  · obtain ⟨n, hn⟩ := exists_settled (h hc)
    refine settles_of_succ n ?_
    intro m hm
    rw [render_container]
    exact guarded_eq fun _ => renderFull_eq c (hn m hm)

theorem ShownInPlace.container (h : s.ShownInPlace text) (active : List Container) (c : Container) :
    text active c.value = if c ∈ active then Shape.cutText (s.containerType c) c
      else s.fullText (text (c :: active)) c := by
  by_cases hc : c ∈ active
  · rw [if_pos hc, h.again active c hc]
  · rw [if_neg hc, h.full active c hc]

/-- Going through a value ends, and gives the text that it is shown by in its place. -/
theorem ShownInPlace.settles (h : s.ShownInPlace text) (active : List Container) (v : Value) :
    s.Settles active v (text active v) := by
  by_cases htuple : ∃ i items, v = .tuple i items
  · obtain ⟨i, items, rfl⟩ := htuple
    rw [h.tuple]
    exact settles_tuple fun w hw => h.settles active w
  by_cases hcontainer : ∃ c : Container, v = c.value
  · obtain ⟨c, rfl⟩ := hcontainer
    rw [h.container]
    exact settles_container fun hc w hw => h.settles (c :: active) w
  · simp only [not_exists] at htuple hcontainer
    rw [h.plain active v hcontainer htuple]
    exact settles_plain hcontainer htuple
-- A container that is entered is one less that is not on the stack, and an item is smaller than its
-- tuple.
termination_by (s.others active, sizeOf v)
decreasing_by
  · have hlt := List.sizeOf_lt_of_mem hw
    refine Prod.Lex.right _ ?_
    subst_vars
    rw [Value.tuple.sizeOf_spec]
    omega
  · exact Prod.Lex.left _ _ (others_lt (mem_everyContainer_of_mem_held hw) hc)

/-! ## The text from the shape of a value -/

/-- The text that a value is shown by inside containers. -/
def textInside (s : Store) (active : List Container) (v : Value) : String :=
  (s.shape v).reprInside active

/-- What a container holds is shown as it is shown anywhere inside the container, although the
container writes it out less deep. -/
theorem shown_item {depth : Nat} {c : Container} {v : Value} (hdepth : s.shapeDepth = depth + 1)
    (hc : c ∉ active) (hv : v ∈ s.held c) :
    (v.unfold s (s.containerShape depth)).shown (c :: active) =
      (s.shape v).shown (c :: active) := by
  have hlt := others_lt (mem_everyContainer_of_mem_held hv) hc
  have hle := s.others_le active
  have hpast := s.containers_lt_shapeDepth
  exact shown_eq (by omega) (by omega) fun _ _ => Iff.rfl

theorem textInside_full {c : Container} (hc : c ∉ active) :
    s.textInside active c.value = s.fullText (s.textInside (c :: active)) c := by
  obtain ⟨depth, hdepth, hshape⟩ := s.exists_shape_container
  rw [textInside, hshape, reprInside_containerShape, if_neg hc]
  exact containerText_congr fun v hv => shown_item hdepth hc hv

/-- The text of the shape is what the value is shown by in its place. -/
theorem shownInPlace_textInside (s : Store) : s.ShownInPlace s.textInside where
  plain active v hcontainer htuple := by
    cases v with
    | tuple i items => exact absurd rfl (htuple i items)
    | list r => exact absurd rfl (hcontainer (.list r))
    | dict r => exact absurd rfl (hcontainer (.dict r))
    | record r => exact absurd rfl (hcontainer (.record r))
    | bool b => cases b <;> rfl
    | _ => rfl
  tuple active i items := by
    change (Shape.tuple fun _ =>
      Value.unfoldAll s (s.containerShape s.shapeDepth) items).reprInside active = _
    unfold Shape.reprInside
    rw [reprsInside_unfoldAll]
    rfl
  again active c hc := by
    obtain ⟨depth, -, hshape⟩ := s.exists_shape_container
    rw [textInside, hshape, reprInside_containerShape, if_pos hc]
  full active c := textInside_full

/-- What a value is shown by in its place is determined. -/
theorem shownInPlace_iff {text : List Container → Value → String} :
    s.ShownInPlace text ↔ text = s.textInside := by
  constructor
  · intro h
    funext active v
    obtain ⟨n, hn⟩ := h.settles active v
    obtain ⟨k, hk⟩ := s.shownInPlace_textInside.settles active v
    have heq := (hn (max n k) (by omega)).symm.trans (hk (max n k) (by omega))
    exact congrArg Prod.fst (Option.some.inj heq)
  · rintro rfl
    exact s.shownInPlace_textInside

/-- Showing a value ends on every store, whatever is on the stack: a container is cut short where it
stands inside itself and is shown in full everywhere else, the stack is left as it was, and outside
all containers the text is that of the value. -/
theorem render_settles (s : Store) : (∀ text, s.ShownInPlace text ↔ text = s.textInside) ∧
    (∀ v, s.textInside [] v = s.repr v) ∧
    ∀ active v, s.Settles active v (s.textInside active v) :=
  ⟨fun _ => shownInPlace_iff, fun _ => rfl, s.shownInPlace_textInside.settles⟩

/-- A list that holds itself is shown in full in both places of a pair. -/
example :
    let s := { Store.empty with lists := #[#[.int 1, .list ⟨0⟩]] }
    let pair := Value.tuple 0 [.list ⟨0⟩, .list ⟨0⟩]
    s.repr pair = "([1, [...]], [1, [...]])" ∧ s.render 3 pair [] = some (s.repr pair, []) := by
  decide +kernel

end

end Store

end StagedScript
