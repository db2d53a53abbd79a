import StagedScript.Proofs.Within
import StagedScript.Syntax.Expr

/-!
# Well-formed trees

In a well-formed tree, at every depth, what is assigned to can be assigned to, the parameters of a
function have names of their own and stand in their order, and no argument by place stands behind
one by name.  What is asked of names and of bodies is left open.
-/

namespace StagedScript

variable {N : String → Prop} {B : List Stmt → Prop}

/-! ## Parameters -/

/-- Whether a parameter may stand in front of another one.  Those without defaults stand in front of
those with defaults; behind them stand one for further positional arguments and one for further
keywords. -/
def Param.mayPrecede {δ : Type} (p q : Param δ) : Bool :=
  match q.kind with
  | .plain none => p.isPlain && p.default?.isNone
  | .plain (some _) | .star => p.isPlain
  | .starStar => !p.isStarStar

theorem Param.isPlain_of_not {δ : Type} {p : Param δ} (hstar : ¬ p.isStar = true)
    (hstarStar : ¬ p.isStarStar = true) : p.isPlain = true := by
  obtain ⟨name, kind⟩ := p
  cases kind with
  | plain default? => rfl
  | star => exact absurd rfl hstar
  | starStar => exact absurd rfl hstarStar

/-- The parameters have names of their own and stand in their order. -/
structure Param.InOrder {δ : Type} (ps : List (Param δ)) : Prop where
  distinct : (Param.names ps).Nodup
  order : ps.Pairwise fun p q => p.mayPrecede q = true

theorem Param.InOrder.nil {δ : Type} : Param.InOrder ([] : List (Param δ)) := ⟨.nil, .nil⟩

/-- A parameter with a new name may be added behind those that may stand in front of it. -/
theorem Param.InOrder.concat {δ : Type} {ps : List (Param δ)} {p : Param δ} (hps : Param.InOrder ps)
    (hnew : p.name ∉ Param.names ps) (hp : ∀ q ∈ ps, q.mayPrecede p = true) :
    Param.InOrder (ps ++ [p]) where
  distinct := by
    rw [names, List.map_append]
    refine List.nodup_append.2 ⟨hps.distinct, List.pairwise_singleton _ _, fun x hx y hy hxy => ?_⟩
    rw [hxy, List.mem_singleton.1 hy] at hx
    exact hnew hx
  order := List.pairwise_append.2 ⟨hps.order, List.pairwise_singleton _ _, fun q hq r hr => by
    rw [List.mem_singleton.1 hr]
    exact hp q hq⟩

/-! ## Expressions and statements -/

/-- An expression in which all names that are read have a property, and in which no argument by
place stands behind one by name. -/
inductive Expr.Formed (N : String → Prop) : Expr → Prop
  | int (span : Span) (n : Int64) : Formed N (.int span n)
  | float (span : Span) (x : Float) : Formed N (.float span x)
  | str (span : Span) (text : String) : Formed N (.str span text)
  | bool (span : Span) (b : Bool) : Formed N (.bool span b)
  | none_ (span : Span) : Formed N (.none_ span)
  | name {x : String} (span : Span) : N x → Formed N (.name span x)
  | tuple {es : List Expr} (span : Span) : (∀ e ∈ es, Formed N e) → Formed N (.tuple span es)
  | list {es : List Expr} (span : Span) : (∀ e ∈ es, Formed N e) → Formed N (.list span es)
  | dict {es : List (Expr × Expr)} (span : Span) : (∀ e ∈ es, Formed N e.1) →
      (∀ e ∈ es, Formed N e.2) → Formed N (.dict span es)
  | binary {l r : Expr} (span : Span) (op : BinaryOp) : Formed N l → Formed N r →
      Formed N (.binary span op l r)
  | unary {e : Expr} (span : Span) (op : UnaryOp) : Formed N e → Formed N (.unary span op e)
  | logical {l r : Expr} (span : Span) (op : LogicalOp) : Formed N l → Formed N r →
      Formed N (.logical span op l r)
  | compare {l r : Expr} (span : Span) (op : CompareOp) : Formed N l → Formed N r →
      Formed N (.compare span op l r)
  | call {f : Expr} {args : List (Arg Expr)} (span : Span) : Formed N f →
      (∀ arg ∈ args, Formed N arg.value) →
      args.Pairwise (fun a b => Parse.namesArgument a.role = true → b.role ≠ .positional) →
      Formed N (.call span f args)
  | attr {o : Expr} (span : Span) (x : String) : Formed N o → Formed N (.attr span o x)
  | subscript {o i : Expr} (span : Span) : Formed N o → Formed N i →
      Formed N (.subscript span o i)

/-- A parameter whose name has the property, with a well-formed default if it has one. -/
structure Param.Formed (N : String → Prop) (p : Param Expr) : Prop where
  name : N p.name
  default : ∀ e ∈ p.default?, e.Formed N

/-- A well-formed statement, as are those within it, whose names have a property and whose bodies
have another. -/
inductive Stmt.Formed (N : String → Prop) (B : List Stmt → Prop) : Stmt → Prop
  | expr {e : Expr} (span : Span) : e.Formed N → Formed N B (.expr span e)
  | assign {targets : List Expr} {value : Expr} (span : Span) : (∀ t ∈ targets, t.Target) →
      (∀ t ∈ targets, t.Formed N) → value.Formed N →
      Formed N B (.assign span targets value)
  | pass (span : Span) : Formed N B (.pass span)
  | ret {value : Option Expr} (span : Span) : (∀ e ∈ value, e.Formed N) →
      Formed N B (.ret span value)
  | brk (span : Span) : Formed N B (.brk span)
  | cont (span : Span) : Formed N B (.cont span)
  | cond {test : Expr} {a b : List Stmt} (span : Span) : test.Formed N → B a →
      (∀ s ∈ a, Formed N B s) → (∀ s ∈ b, Formed N B s) →
      Formed N B (.cond span test a b)
  | loop {test : Expr} {b : List Stmt} (span : Span) : test.Formed N → B b →
      (∀ s ∈ b, Formed N B s) → Formed N B (.loop span test b)
  | each {target iter : Expr} {b els : List Stmt} (span : Span) : target.Target → target.Formed N →
      iter.Formed N → B b → (∀ s ∈ b, Formed N B s) →
      (∀ s ∈ els, Formed N B s) → Formed N B (.each span target iter b els)
  | define {x : String} {ds : List Expr} {ps : List (Param Expr)} {b : List Stmt} (span : Span) :
      N x → (∀ d ∈ ds, d.Formed N) → Param.InOrder ps → (∀ p ∈ ps, p.Formed N) → B b →
      (∀ s ∈ b, Formed N B s) → Formed N B (.define span x ds ps b)
  | class_ {x : String} {base : Option Expr} {b : List Stmt} (span : Span) : N x →
      (∀ e ∈ base, e.Formed N) → B b → (∀ s ∈ b, Formed N B s) →
      Formed N B (.class_ span x base b)

namespace Stmt

/-- What stands within well-formed statements is well-formed if what stands within each of them
is. -/
theorem forall_mem_withinAll {P : Stmt → Prop} {ss : List Stmt}
    (h : ∀ s ∈ ss, ∀ t ∈ s.within, P t) :
    ∀ t ∈ withinAll ss, P t := by
  induction ss with
  | nil => exact fun t ht => absurd ht List.not_mem_nil
  | cons s ss ih =>
    obtain ⟨hs, hss⟩ := List.forall_mem_cons.1 h
    exact List.forall_mem_append.2 ⟨hs, ih hss⟩

/-- What stands within a well-formed statement is well-formed. -/
theorem Formed.within {s : Stmt} (h : s.Formed N B) : ∀ t ∈ s.within, t.Formed N B := by
  induction h with
  | expr span he => exact List.forall_mem_singleton.2 (.expr span he)
  | assign span htargets hts he => exact List.forall_mem_singleton.2 (.assign span htargets hts he)
  | pass span => exact List.forall_mem_singleton.2 (.pass span)
  | ret span he => exact List.forall_mem_singleton.2 (.ret span he)
  | brk span => exact List.forall_mem_singleton.2 (.brk span)
  | cont span => exact List.forall_mem_singleton.2 (.cont span)
  | cond span he hbody ha hb iha ihb =>
    exact List.forall_mem_cons.2 ⟨.cond span he hbody ha hb,
      List.forall_mem_append.2 ⟨forall_mem_withinAll iha, forall_mem_withinAll ihb⟩⟩
  | loop span he hbody hb ih =>
    exact List.forall_mem_cons.2 ⟨.loop span he hbody hb, forall_mem_withinAll ih⟩
  | each span htarget ht he hbody hb hels ih ihels =>
    exact List.forall_mem_cons.2 ⟨.each span htarget ht he hbody hb hels,
      List.forall_mem_append.2 ⟨forall_mem_withinAll ih, forall_mem_withinAll ihels⟩⟩
  | define span hx hds horder hps hbody hb ih =>
    exact List.forall_mem_cons.2 ⟨.define span hx hds horder hps hbody hb, forall_mem_withinAll ih⟩
  | class_ span hx he hbody hb ih =>
    exact List.forall_mem_cons.2 ⟨.class_ span hx he hbody hb, forall_mem_withinAll ih⟩

/-- What is asked of bodies may be dropped. -/
theorem Formed.weaken {s : Stmt} (h : s.Formed N B) : s.Formed N fun _ => True := by
  induction h with
  | expr span he => exact .expr span he
  | assign span htargets hts he => exact .assign span htargets hts he
  | pass span => exact .pass span
  | ret span he => exact .ret span he
  | brk span => exact .brk span
  | cont span => exact .cont span
  | cond span he _ _ _ iha ihb => exact .cond span he trivial iha ihb
  | loop span he _ _ ih => exact .loop span he trivial ih
  | each span htarget ht he _ _ _ ih ihels => exact .each span htarget ht he trivial ih ihels
  | define span hx hds horder hps _ _ ih => exact .define span hx hds horder hps trivial ih
  | class_ span hx he _ _ ih => exact .class_ span hx he trivial ih

/-- What a well-formed statement assigns to can be assigned to. -/
theorem Formed.targets {s : Stmt} (h : s.Formed N B) : ∀ t ∈ s.targets, t.Target := by
  cases h with
  | assign span htargets hts he => exact htargets
  | each span htarget ht he hbody hb hels => exact List.forall_mem_singleton.2 htarget
  | _ => exact fun t ht => absurd ht List.not_mem_nil

end Stmt

/-! ## Names -/

namespace Expr

theorem forall_mem_readsAll {es : List Expr} (h : ∀ e ∈ es, ∀ x ∈ e.reads, N x) :
    ∀ x ∈ readsAll es, N x := by
  induction es with
  | nil => exact fun x hx => absurd hx List.not_mem_nil
  | cons e es ih =>
    obtain ⟨he, hes⟩ := List.forall_mem_cons.1 h
    exact List.forall_mem_append.2 ⟨he, ih hes⟩

theorem forall_mem_readsEntries {es : List (Expr × Expr)} (hkeys : ∀ e ∈ es, ∀ x ∈ e.1.reads, N x)
    (hvalues : ∀ e ∈ es, ∀ x ∈ e.2.reads, N x) : ∀ x ∈ readsEntries es, N x := by
  induction es with
  | nil => exact fun x hx => absurd hx List.not_mem_nil
  | cons e es ih =>
    obtain ⟨hkey, hkeys⟩ := List.forall_mem_cons.1 hkeys
    obtain ⟨hvalue, hvalues⟩ := List.forall_mem_cons.1 hvalues
    exact List.forall_mem_append.2 ⟨List.forall_mem_append.2 ⟨hkey, hvalue⟩, ih hkeys hvalues⟩

theorem forall_mem_readsArgs {args : List (Arg Expr)}
    (h : ∀ arg ∈ args, ∀ x ∈ arg.value.reads, N x) :
    ∀ x ∈ readsArgs args, N x := by
  induction args with
  | nil => exact fun x hx => absurd hx List.not_mem_nil
  | cons arg args ih =>
    obtain ⟨harg, hargs⟩ := List.forall_mem_cons.1 h
    exact List.forall_mem_append.2 ⟨harg, ih hargs⟩

/-- A well-formed expression reads names with the property alone. -/
theorem Formed.reads {e : Expr} (h : e.Formed N) : ∀ x ∈ e.reads, N x := by
  induction h with
  | int | float | str | bool | none_ => exact fun x hx => absurd hx List.not_mem_nil
  | name span hx => exact List.forall_mem_singleton.2 hx
  | tuple span _ ih | list span _ ih => exact forall_mem_readsAll ih
  | dict span _ _ ihkeys ihvalues => exact forall_mem_readsEntries ihkeys ihvalues
  | binary span op _ _ ihl ihr | logical span op _ _ ihl ihr | compare span op _ _ ihl ihr =>
    exact List.forall_mem_append.2 ⟨ihl, ihr⟩
  | unary span op _ ih => exact ih
  | call span _ _ _ ihf ihargs => exact List.forall_mem_append.2 ⟨ihf, forall_mem_readsArgs ihargs⟩
  | attr span x _ ih => exact ih
  | subscript span _ _ iho ihi => exact List.forall_mem_append.2 ⟨iho, ihi⟩

theorem Formed.readsAll {es : List Expr} (h : ∀ e ∈ es, e.Formed N) :
    ∀ x ∈ Expr.readsAll es, N x :=
  forall_mem_readsAll fun e he => (h e he).reads

theorem Formed.elim {e : Option Expr} (h : ∀ e' ∈ e, e'.Formed N) :
    ∀ x ∈ e.elim [] Expr.reads, N x := by
  cases e with
  | none => exact fun x hx => absurd hx List.not_mem_nil
  | some e => exact (h e rfl).reads

end Expr

theorem Param.Formed.names {ps : List (Param Expr)} (h : ∀ p ∈ ps, p.Formed N) :
    ∀ x ∈ Param.names ps, N x := by
  intro x hx
  obtain ⟨p, hp, rfl⟩ := List.mem_map.1 hx
  exact (h p hp).name

theorem Param.Formed.reads {ps : List (Param Expr)} (h : ∀ p ∈ ps, p.Formed N) :
    ∀ x ∈ Param.reads ps, N x := by
  intro x hx
  obtain ⟨p, hp, hx⟩ := List.mem_flatMap.1 hx
  exact Expr.Formed.elim (h p hp).default x hx

namespace Stmt

theorem forall_mem_mentionsAll {ss : List Stmt} (h : ∀ s ∈ ss, ∀ x ∈ s.mentions, N x) :
    ∀ x ∈ mentionsAll ss, N x := by
  induction ss with
  | nil => exact fun x hx => absurd hx List.not_mem_nil
  | cons s ss ih =>
    obtain ⟨hs, hss⟩ := List.forall_mem_cons.1 h
    exact List.forall_mem_append.2 ⟨hs, ih hss⟩

/-- A well-formed statement mentions names with the property alone. -/
theorem Formed.mentions {s : Stmt} (h : s.Formed N B) : ∀ x ∈ s.mentions, N x := by
  induction h with
  | expr span he => exact he.reads
  | assign span _ hts he => exact List.forall_mem_append.2 ⟨Expr.Formed.readsAll hts, he.reads⟩
  | pass | brk | cont => exact fun x hx => absurd hx List.not_mem_nil
  | ret span he => exact Expr.Formed.elim he
  | cond span he _ _ _ iha ihb =>
    exact List.forall_mem_append.2 ⟨he.reads,
      List.forall_mem_append.2 ⟨forall_mem_mentionsAll iha, forall_mem_mentionsAll ihb⟩⟩
  | loop span he _ _ ih => exact List.forall_mem_append.2 ⟨he.reads, forall_mem_mentionsAll ih⟩
  | each span _ ht he _ _ _ ih ihels =>
    exact List.forall_mem_append.2 ⟨List.forall_mem_append.2 ⟨ht.reads, he.reads⟩,
      List.forall_mem_append.2 ⟨forall_mem_mentionsAll ih, forall_mem_mentionsAll ihels⟩⟩
  | define span hx hds _ hps _ _ ih =>
    refine List.forall_mem_cons.2 ⟨hx, List.forall_mem_append.2 ⟨?_, forall_mem_mentionsAll ih⟩⟩
    exact List.forall_mem_append.2 ⟨Expr.Formed.readsAll hds,
      List.forall_mem_append.2 ⟨Param.Formed.names hps, Param.Formed.reads hps⟩⟩
  | class_ span hx he _ _ ih =>
    refine List.forall_mem_cons.2 ⟨hx, List.forall_mem_append.2 ⟨?_, forall_mem_mentionsAll ih⟩⟩
    exact Expr.Formed.elim he

end Stmt

end StagedScript
