import StagedScript.Tree.Stmt

/-!
# Names of a body

Which names a body binds, and which it reads from outside.  Binding does not depend on the flow of
control: a name that is assigned anywhere in a body belongs to the whole body.  A body reads from
outside what it reads and does not bind; what the functions and classes in it read from outside
counts as read by it.
-/

namespace StagedScript

namespace Expr

mutual

/-- The names that an assignment to an expression binds. -/
def stores : Expr → List String
  | name _ x => [x]
  | tuple _ es => storesAll es
  | list _ es => storesAll es
  | _ => []

/-- The names that assignments to expressions bind. -/
def storesAll : List Expr → List String
  | [] => []
  | e :: es => stores e ++ storesAll es

end

mutual

/-- The names that an expression reads, in order. -/
def reads : Expr → List String
  | int _ _ | float _ _ | str _ _ | bool _ _ | none_ _ => []
  | name _ x => [x]
  | tuple _ es => readsAll es
  | list _ es => readsAll es
  | dict _ es => readsEntries es
  | binary _ _ l r => reads l ++ reads r
  | unary _ _ e => reads e
  | logical _ _ l r => reads l ++ reads r
  | compare _ _ l r => reads l ++ reads r
  | call _ f args => reads f ++ readsArgs args
  | attr _ o _ => reads o
  | subscript _ o i => reads o ++ reads i

/-- The names that expressions read. -/
def readsAll : List Expr → List String
  | [] => []
  | e :: es => reads e ++ readsAll es

/-- The names that the entries of a dict read. -/
def readsEntries : List (Expr × Expr) → List String
  | [] => []
  | (k, v) :: es => reads k ++ reads v ++ readsEntries es

/-- The names that arguments read. -/
def readsArgs : List (Arg Expr) → List String
  | [] => []
  | ⟨_, e⟩ :: args => reads e ++ readsArgs args

end

mutual

/-- The names that an assignment to an expression reads. -/
def storeReads : Expr → List String
  | name _ _ => []
  | tuple _ es => storeReadsAll es
  | list _ es => storeReadsAll es
  | e => reads e

/-- The names that assignments to expressions read. -/
def storeReadsAll : List Expr → List String
  | [] => []
  | e :: es => storeReads e ++ storeReadsAll es

end

end Expr

namespace Param

/-- The names that the defaults of parameters read. -/
def reads (ps : List (Param Expr)) : List String :=
  ps.flatMap fun p => p.default?.elim [] Expr.reads

/-- The names of parameters. -/
def names {δ : Type} (ps : List (Param δ)) : List String := ps.map (·.name)

end Param

/-- The members of a list that are not among some names. -/
def without (bound names : List String) : List String := names.filter (!bound.contains ·)

namespace Stmt

mutual

/-- The names that a statement binds in the body that it stands in, in order. -/
def binds : Stmt → List String
  | assign _ ts _ => Expr.storesAll ts
  | each _ t _ b e => t.stores ++ bindsAll b ++ bindsAll e
  | cond _ _ a b => bindsAll a ++ bindsAll b
  | loop _ _ b => bindsAll b
  | define _ x _ _ _ => [x]
  | class_ _ x _ _ => [x]
  | expr _ _ | pass _ | ret _ _ | brk _ | cont _ => []

/-- The names that statements bind. -/
def bindsAll : List Stmt → List String
  | [] => []
  | s :: ss => binds s ++ bindsAll ss

end

mutual

/-- The names that a statement reads, those aside that are bound by the function or class of it
that reads them. -/
def reads : Stmt → List String
  | expr _ e => e.reads
  | assign _ ts v => v.reads ++ Expr.storeReadsAll ts
  | ret _ v => v.elim [] Expr.reads
  | cond _ t a b => t.reads ++ readsAll a ++ readsAll b
  | loop _ t b => t.reads ++ readsAll b
  | each _ t i b e => i.reads ++ t.storeReads ++ readsAll b ++ readsAll e
  | define _ _ ds ps b =>
    Expr.readsAll ds ++ Param.reads ps ++ without (Param.names ps ++ bindsAll b) (readsAll b)
  | class_ _ _ base b => base.elim [] Expr.reads ++ without (bindsAll b) (readsAll b)
  | pass _ | brk _ | cont _ => []

/-- The names that statements read. -/
def readsAll : List Stmt → List String
  | [] => []
  | s :: ss => reads s ++ readsAll ss

end

end Stmt

/-- The names that a body binds, each once, in the order of their first binding. -/
def boundNames (body : List Stmt) : List String := (Stmt.bindsAll body).eraseDups

/-- The names that a function reads from outside, each once, in the order of their first use. -/
def Definition.freeNames (d : Definition) : List String :=
  (without (Param.names d.params ++ Stmt.bindsAll d.body) (Stmt.readsAll d.body)).eraseDups

/-- The definition of a function or a class, as its name analysis sees it. -/
inductive Scope where
  /-- A function. -/
  | function (d : Definition)
  /-- A class. -/
  | class_ (name : String) (body : List Stmt)

namespace Stmt

mutual

/-- The functions and classes that a statement defines, each in front of those within it. -/
def scopes : Stmt → List Scope
  | define _ x ds ps b => .function ⟨x, ds, ps, b⟩ :: scopesAll b
  | class_ _ x _ b => .class_ x b :: scopesAll b
  | cond _ _ a b => scopesAll a ++ scopesAll b
  | loop _ _ b => scopesAll b
  | each _ _ _ b e => scopesAll b ++ scopesAll e
  | expr _ _ | assign _ _ _ | pass _ | ret _ _ | brk _ | cont _ => []

/-- The functions and classes that statements define. -/
def scopesAll : List Stmt → List Scope
  | [] => []
  | s :: ss => scopes s ++ scopesAll ss

end

end Stmt

end StagedScript
