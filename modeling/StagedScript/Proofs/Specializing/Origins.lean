import StagedScript.Proofs.Parsing.Named
import StagedScript.Proofs.Specializing.Reached
import StagedScript.Proofs.Unrolling.Rewriting

/-!
# Where functions come from

Every function of a program has been defined in a text that could be read, also one that has been
made anew: its definition starts in this text as the function says.  Neither unrolling nor the
shifting of lines, nor anything that a program does, makes functions of another kind.
-/

namespace StagedScript

open Word (AllNames)

/-! ## Heads of definitions -/

/-- How a definition starts: where it stands, and what is in front of its body. -/
structure Stmt.Head where
  /-- Where the definition stands. -/
  span : Span
  /-- The name of the function. -/
  name : String
  /-- The decorators. -/
  decorators : List Expr
  /-- The parameters. -/
  params : List (Param Expr)

namespace Stmt

/-- The head of a definition. -/
def head? : Stmt → Option Head
  | define span x ds ps _ => some ⟨span, x, ds, ps⟩
  | _ => none

/-- The heads of the definitions within statements. -/
def headsAll (ss : List Stmt) : List Head := (withinAll ss).filterMap head?

/-- The definition starts in a text. -/
def Head.StandsIn (h : Head) (text : String) : Prop :=
  ∃ label script, Script.parse text label = .ok script ∧ h ∈ headsAll script.body

variable {ss ts : List Stmt} {text : String}

theorem headsAll_append (ss ts : List Stmt) : headsAll (ss ++ ts) = headsAll ss ++ headsAll ts := by
  rw [headsAll, withinAll_append, List.filterMap_append]
  rfl

theorem headsAll_cons (s : Stmt) (ss : List Stmt) :
    headsAll (s :: ss) = headsAll [s] ++ headsAll ss := headsAll_append [s] ss

section

variable (span : Span) (e : Expr) (a b : List Stmt)

attribute [local simp] withinAll within head?

@[simp] theorem headsAll_cond : headsAll [cond span e a b] = headsAll a ++ headsAll b := by
  simp [headsAll, List.filterMap_cons]

@[simp] theorem headsAll_loop : headsAll [loop span e b] = headsAll b := by
  simp [headsAll, List.filterMap_cons]

@[simp] theorem headsAll_each (target : Expr) :
    headsAll [each span target e a b] = headsAll a ++ headsAll b := by
  simp [headsAll, List.filterMap_cons]

@[simp] theorem headsAll_define (x : String) (ds : List Expr) (ps : List (Param Expr)) :
    headsAll [define span x ds ps b] = ⟨span, x, ds, ps⟩ :: headsAll b := by
  simp [headsAll]

@[simp] theorem headsAll_class (x : String) (base : Option Expr) :
    headsAll [class_ span x base b] = headsAll b := by
  simp [headsAll, List.filterMap_cons]

end

/-- The definitions within the statements start in a text, and only names are mentioned. -/
structure SourcedIn (text : String) (ss : List Stmt) : Prop where
  names : AllNames (mentionsAll ss)
  heads : ∀ h ∈ headsAll ss, h.StandsIn text

theorem SourcedIn.mono (hs : SourcedIn text ss) (hnames : mentionsAll ts ⊆ mentionsAll ss)
    (hheads : headsAll ts ⊆ headsAll ss) : SourcedIn text ts :=
  ⟨fun x hx => hs.names x (hnames hx), fun h hh => hs.heads h (hheads hh)⟩

theorem SourcedIn.body {span : Span} {x : String} {ds : List Expr} {ps : List (Param Expr)}
    {b : List Stmt} (h : SourcedIn text ss) (hb : define span x ds ps b ∈ withinAll ss) :
    SourcedIn text b :=
  h.mono (List.Subset.trans (List.subset_append_right _ _) (mentions_withinAll hb))
    (List.filterMap_subset _ (withinAll_subset_of_define hb))

end Stmt

/-! ## Unrolled statements -/

namespace Unroll

theorem headsAll_roundsFrom (span : Span) (target : Expr) (x : String) (b : List Stmt) (i n : Nat) :
    Stmt.headsAll (roundsFrom span target x b i n) ⊆ Stmt.headsAll b := by
  induction n generalizing i with
  | zero => exact List.nil_subset _
  | succ n ih =>
    rw [roundsFrom, Stmt.headsAll_cons, Stmt.headsAll_append]
    exact List.append_subset.2 ⟨List.nil_subset _, List.append_subset.2 ⟨fun _ => id, ih (i + 1)⟩⟩

theorem mentionsAll_roundsFrom (span : Span) (target : Expr) (x : String) (b : List Stmt)
    (i n : Nat) :
    Stmt.mentionsAll (roundsFrom span target x b i n) ⊆ target.reads ++ x ::
      Stmt.mentionsAll b := by
  induction n generalizing i with
  | zero => exact List.nil_subset _
  | succ n ih =>
    rw [roundsFrom, Stmt.mentionsAll, Stmt.mentionsAll_append]
    refine List.append_subset.2 ⟨?_, List.append_subset.2 ⟨?_, ih (i + 1)⟩⟩
    · simp only [take, Stmt.mentions, Expr.readsAll, Expr.reads, List.append_nil]
      exact append_subset_append (fun _ => id) (by simp)
    · exact List.subset_append_of_subset_right _ (List.subset_cons_self _ _)

variable {known : Table Extent}

mutual

theorem sources_of_stmt (s : Stmt) {ss : List Stmt} (h : stmt known s = .ok ss) :
    Stmt.mentionsAll ss ⊆ s.mentions ∧ Stmt.headsAll ss ⊆ Stmt.headsAll [s] := by
  cases s with
  | expr | assign | pass | ret | brk | cont =>
    cases h
    exact ⟨by simp [Stmt.mentionsAll], fun _ => id⟩
  | cond span test a b =>
    obtain ⟨a', ha, h⟩ := Except.bind_eq_ok.1 h
    obtain ⟨b', hb, h⟩ := Except.bind_eq_ok.1 h
    cases h
    obtain ⟨hnames, hheads⟩ := sources_of_stmts a ha
    obtain ⟨hnames', hheads'⟩ := sources_of_stmts b hb
    simp only [Stmt.mentionsAll, List.append_nil, Stmt.headsAll_cond]
    exact ⟨append_subset_append (fun _ => id) (append_subset_append hnames hnames'),
      append_subset_append hheads hheads'⟩
  | loop span test b =>
    obtain ⟨b', hb, h⟩ := Except.bind_eq_ok.1 h
    cases h
    obtain ⟨hnames, hheads⟩ := sources_of_stmts b hb
    simp only [Stmt.mentionsAll, List.append_nil, Stmt.headsAll_loop]
    exact ⟨append_subset_append (fun _ => id) hnames, hheads⟩
  | define span x ds ps b =>
    obtain ⟨b', hb, h⟩ := Except.bind_eq_ok.1 h
    cases h
    obtain ⟨hnames, hheads⟩ := sources_of_stmts b hb
    simp only [Stmt.mentionsAll, List.append_nil, Stmt.headsAll_define]
    exact ⟨append_subset_append (fun _ => id) hnames, List.cons_subset_cons _ hheads⟩
  | class_ span x base b =>
    obtain ⟨b', hb, h⟩ := Except.bind_eq_ok.1 h
    cases h
    obtain ⟨hnames, hheads⟩ := sources_of_stmts b hb
    simp only [Stmt.mentionsAll, List.append_nil, Stmt.headsAll_class]
    exact ⟨append_subset_append (fun _ => id) hnames, hheads⟩
  | each span target iter b els =>
    unfold stmt at h
    split at h
    · next x extent hknown =>
      obtain ⟨at_, rfl, -⟩ := Unrolls.known?_eq_some hknown
      obtain ⟨n, -, h⟩ := Except.bind_eq_ok.1 h
      split at h
      · cases h
        exact ⟨List.nil_subset _, List.nil_subset _⟩
      · obtain ⟨b', hb, h⟩ := Except.bind_eq_ok.1 h
        cases h
        obtain ⟨hnames, hheads⟩ := sources_of_stmts b hb
        rw [rounds_eq, Stmt.headsAll_each]
        refine ⟨List.Subset.trans (mentionsAll_roundsFrom span target x b' 0 n) ?_,
          List.Subset.trans (headsAll_roundsFrom span target x b' 0 n)
            (List.subset_append_of_subset_left _ hheads)⟩
        rw [Stmt.mentions, List.append_assoc, Expr.reads, List.singleton_append]
        refine append_subset_append (fun _ => id) (List.cons_subset_cons x ?_)
        exact List.subset_append_of_subset_left _ hnames
    · obtain ⟨b', hb, h⟩ := Except.bind_eq_ok.1 h
      obtain ⟨els', hels, h⟩ := Except.bind_eq_ok.1 h
      cases h
      obtain ⟨hnames, hheads⟩ := sources_of_stmts b hb
      obtain ⟨hnames', hheads'⟩ := sources_of_stmts els hels
      simp only [Stmt.mentionsAll, List.append_nil, Stmt.headsAll_each]
      exact ⟨append_subset_append (fun _ => id) (append_subset_append hnames hnames'),
        append_subset_append hheads hheads'⟩

/-- Unrolled statements mention no names and define no functions but those that there were. -/
theorem sources_of_stmts (ss : List Stmt) {ts : List Stmt} (h : stmts known ss = .ok ts) :
    Stmt.mentionsAll ts ⊆ Stmt.mentionsAll ss ∧ Stmt.headsAll ts ⊆ Stmt.headsAll ss := by
  cases ss with
  | nil =>
    cases h
    exact ⟨fun _ => id, fun _ => id⟩
  | cons s ss =>
    obtain ⟨front, hfront, h⟩ := Except.bind_eq_ok.1 h
    obtain ⟨rest, hrest, h⟩ := Except.bind_eq_ok.1 h
    cases h
    obtain ⟨hnames, hheads⟩ := sources_of_stmt s hfront
    obtain ⟨hnames', hheads'⟩ := sources_of_stmts ss hrest
    rw [Stmt.mentionsAll_append, Stmt.headsAll_append, Stmt.headsAll_cons, Stmt.mentionsAll]
    exact ⟨append_subset_append hnames hnames', append_subset_append hheads hheads'⟩

end

end Unroll

/-! ## Scripts -/

namespace Script

variable {script : Script}

/-- The definitions of the script start in its text. -/
def Sourced (script : Script) : Prop := Stmt.SourcedIn script.source.text script.body

theorem sourced_of_parse {text label : String} (h : parse text label = .ok script) :
    script.Sourced := by
  obtain ⟨-, -, hscript⟩ := (parse_eq_ok script).1 h
  have htext : script.source.text = text := by rw [hscript]
  refine ⟨allNames_of_parse h, fun head hhead => ?_⟩
  rw [htext]
  exact ⟨label, script, h, hhead⟩

theorem Sourced.shift (h : script.Sourced) (n : Int) : (script.shift n).Sourced := h

theorem Sourced.relabel (h : script.Sourced) (label : String) : (script.relabel label).Sourced := h

theorem Sourced.unroll (h : script.Sourced) {known : Table Extent} {script' : Script}
    (hscript : Script.unroll known script = .ok () script') : script'.Sourced := by
  obtain ⟨b, hb, rfl⟩ := Script.unroll_eq_ok.1 hscript
  obtain ⟨hnames, hheads⟩ := Unroll.sources_of_stmts script.body hb
  exact Stmt.SourcedIn.mono h hnames hheads

/-- What is executed of a script has been read as well. -/
theorem Sourced.program (h : script.Sourced) {label : String} {p : Program}
    (hp : Program.ofScript script label = .ok p) : p.toScript.Sourced := by
  rw [Program.toScript_of_ofScript hp]
  exact h.relabel label

theorem Arises.sourced (h : script.Arises) : script.Sourced := by
  induction h with
  | parse h => exact sourced_of_parse h
  | shift n _ ih => exact ih.shift n
  | relabel label _ ih => exact ih.relabel label
  | unroll _ h ih => exact ih.unroll h

end Script

/-- The text around the definition of a closure has been read, and perhaps unrolled. -/
theorem Closure.sourced_unrolled {c : Closure} (h : c.script.Sourced) {script : Script}
    (hscript : c.unrolled = .ok script) : script.Sourced :=
  unrolled_induction (fun h => h.unroll) h hscript

theorem Closure.sourced_of_ofFunction {v : Value} {given : Table Value} {s t : Store} {c : Closure}
    (hc : ofFunction v given s = .ok c t) : c.script.Sourced := (arises_of_ofFunction hc).sourced

/-! ## Functions -/

/-- The function has been defined in its text. -/
structure Function.Sourced (f : Function) : Prop where
  head : (⟨f.origin.span, f.name, f.definition.decorators, f.definition.params⟩ :
    Stmt.Head).StandsIn f.origin.source.text
  name : Word.isName f.name = true
  captured : AllNames f.captured.keys
  body : Stmt.SourcedIn f.origin.source.text f.definition.body

/-- A function that a statement of a text defines has been defined in the text. -/
theorem Function.MadeBy.sourced {g : Function} {source : Source} {s : Stmt} {b : List Stmt}
    (hg : g.MadeBy source s) (hb : Stmt.SourcedIn source.text b) (hs : s ∈ Stmt.withinAll b) :
    g.Sourced := by
  have hstmt := hg.stmt ▸ hs
  have hbody := hb.body hstmt
  rw [← hg.source] at hb hbody
  refine ⟨?_, ?_, fun x hx => ?_, hbody⟩
  · rw [hg.name]
    exact hb.heads _ (List.mem_filterMap.2 ⟨_, hstmt, rfl⟩)
  · rw [hg.name]
    exact hb.names _ (Stmt.mentions_withinAll hstmt (by simp [Stmt.mentions]))
  · exact hbody.names x (Stmt.freeNames_subset_mentionsAll g.definition (hg.captured hx))

/-- All functions have been defined in their texts. -/
def Store.Sourced (s : Store) : Prop := ∀ r f, s.getFunction? r = some f → f.Sourced

namespace Run

/-- A computation that makes no functions but such as are defined in their texts. -/
abbrev Sourced {α : Type} (x : Run α) : Prop := Keeps Store.Sourced (fun _ _ => True) x

theorem admits_sourced {source : Source} {b : List Stmt} (hb : Stmt.SourcedIn source.text b) :
    Admits Store.Sourced (fun _ _ => True) source (Stmt.withinAll b) where
  making hs hg ht := Store.AllFunctions.newFunction ht (hg.sourced hb hs)
  targets _ _ := .inr fun _ => trivial

/-- Functions are defined in their texts, whatever programs and calls do. -/
theorem carries_sourced : Carries Function.Sourced (fun _ _ => True) where
  steady := {
    functions := fun hst hs => Store.AllFunctions.of_functions_eq hs hst
    plain := fun _ => trivial
    fuel := fun _ => trivial
    leaving := fun _ _ => trivial }
  stray _ := trivial
  script hs := admits_sourced hs.sourced
  body hf := admits_sourced hf.body

end Run

/-- The natives of a host make no functions but such as are defined in their texts, as long as the
calls that they make do not. -/
def Host.Sourced (host : Host) : Prop :=
  ∀ {call : Caller}, call.Keeps Store.Sourced (fun _ _ => True) → ∀ name args,
    Run.Sourced (host name call args)

/-- In a store that a host comes to, all functions have been defined in their texts. -/
theorem Store.Reached.sourced {host : Host} (hhost : host.Sourced) {s : Store}
    (h : s.Reached host) :
    s.Sourced := h.allFunctions Run.carries_sourced hhost

end StagedScript
