import StagedScript.Proofs.Parsing.Named
import StagedScript.Proofs.Specializing.Reached
import StagedScript.Proofs.Unrolling.Rewriting

/-!
# Trees stay well-formed

Scripts are well-formed when they have been read, and they stay so when loops are unrolled.  So are
the bodies of all functions, which come from scripts.  Hence whatever a program assigns to can be
assigned to.
-/

namespace StagedScript

variable {N : String → Prop} {B : List Stmt → Prop}

/-! ## Unrolled statements -/

namespace Unroll

variable {known : Table Extent}

/-- The rounds of a loop are well-formed if the loop is. -/
theorem formed_roundsFrom {span : Span} {target : Expr} {x : String} {b : List Stmt}
    (htarget : target.Target) (ht : target.Formed N) (hx : N x)
    (hb : ∀ s ∈ b, s.Formed N fun _ => True) (i n : Nat) :
    ∀ s ∈ roundsFrom span target x b i n, s.Formed N fun _ => True := by
  induction n generalizing i with
  | zero => exact fun _ hs => absurd hs List.not_mem_nil
  | succ n ih =>
    have htake : (take span target x i).Formed N fun _ => True :=
      .assign span (List.forall_mem_singleton.2 htarget) (List.forall_mem_singleton.2 ht)
        (.subscript span (.name span hx) (.int span _))
    rw [roundsFrom]
    exact List.forall_mem_cons.2 ⟨htake, List.forall_mem_append.2 ⟨hb, ih (i + 1)⟩⟩

/-- What several statements are replaced by is well-formed if what each is replaced by is. -/
theorem formed_stmts_of {ss : List Stmt} (h : ∀ s ∈ ss, ∀ {ts : List Stmt}, stmt known s = .ok ts →
    ∀ t ∈ ts, t.Formed N fun _ => True) {ts : List Stmt} (hts : stmts known ss = .ok ts) :
    ∀ t ∈ ts, t.Formed N fun _ => True := by
  induction ss generalizing ts with
  | nil =>
    cases hts
    exact fun _ ht => absurd ht List.not_mem_nil
  | cons s ss ih =>
    obtain ⟨hs, hss⟩ := List.forall_mem_cons.1 h
    obtain ⟨front, hfront, hts⟩ := Except.bind_eq_ok.1 hts
    obtain ⟨rest, hrest, hts⟩ := Except.bind_eq_ok.1 hts
    cases hts
    exact List.forall_mem_append.2 ⟨hs hfront, ih hss hrest⟩

/-- What a well-formed statement is replaced by is well-formed. -/
theorem formed_stmt {s : Stmt} (h : s.Formed N B) {ts : List Stmt} (hts : stmt known s = .ok ts) :
    ∀ t ∈ ts, t.Formed N fun _ => True := by
  induction h generalizing ts with
  | expr span he =>
    cases hts
    exact List.forall_mem_singleton.2 (.expr span he)
  | assign span htargets hts' he =>
    cases hts
    exact List.forall_mem_singleton.2 (.assign span htargets hts' he)
  | pass span =>
    cases hts
    exact List.forall_mem_singleton.2 (.pass span)
  | ret span he =>
    cases hts
    exact List.forall_mem_singleton.2 (.ret span he)
  | brk span =>
    cases hts
    exact List.forall_mem_singleton.2 (.brk span)
  | cont span =>
    cases hts
    exact List.forall_mem_singleton.2 (.cont span)
  | cond span he _ _ _ iha ihb =>
    obtain ⟨a', ha, hts⟩ := Except.bind_eq_ok.1 hts
    obtain ⟨b', hb, hts⟩ := Except.bind_eq_ok.1 hts
    cases hts
    exact List.forall_mem_singleton.2
      (.cond span he trivial (formed_stmts_of iha ha) (formed_stmts_of ihb hb))
  | loop span he _ _ ih =>
    obtain ⟨b', hb, hts⟩ := Except.bind_eq_ok.1 hts
    cases hts
    exact List.forall_mem_singleton.2 (.loop span he trivial (formed_stmts_of ih hb))
  | define span hx hds horder hps _ _ ih =>
    obtain ⟨b', hb, hts⟩ := Except.bind_eq_ok.1 hts
    cases hts
    exact List.forall_mem_singleton.2
      (.define span hx hds horder hps trivial (formed_stmts_of ih hb))
  | class_ span hx he _ _ ih =>
    obtain ⟨b', hb, hts⟩ := Except.bind_eq_ok.1 hts
    cases hts
    exact List.forall_mem_singleton.2 (.class_ span hx he trivial (formed_stmts_of ih hb))
  | each span htarget ht he _ _ _ ih ihels =>
    unfold stmt at hts
    split at hts
    · next x extent hknown =>
      obtain ⟨at_, rfl, -⟩ := Unrolls.known?_eq_some hknown
      obtain ⟨n, -, hts⟩ := Except.bind_eq_ok.1 hts
      split at hts
      · cases hts
        exact fun _ ht => absurd ht List.not_mem_nil
      · obtain ⟨b', hb, hts⟩ := Except.bind_eq_ok.1 hts
        cases hts
        rw [rounds_eq]
        exact formed_roundsFrom htarget ht (he.reads x List.mem_cons_self)
          (formed_stmts_of ih hb) 0 n
    · obtain ⟨b', hb, hts⟩ := Except.bind_eq_ok.1 hts
      obtain ⟨els', hels, hts⟩ := Except.bind_eq_ok.1 hts
      cases hts
      exact List.forall_mem_singleton.2
        (.each span htarget ht he trivial (formed_stmts_of ih hb) (formed_stmts_of ihels hels))

/-- Unrolling keeps statements well-formed, although it may leave bodies empty. -/
theorem formed_stmts {ss ts : List Stmt} (h : ∀ s ∈ ss, s.Formed N B)
    (hts : stmts known ss = .ok ts) :
    ∀ t ∈ ts, t.Formed N fun _ => True :=
  formed_stmts_of (fun s hs _ hts => formed_stmt (h s hs) hts) hts

end Unroll

/-! ## Scripts and functions -/

/-- A script that has been read is well-formed, whatever has become of it. -/
theorem Script.Arises.formed {script : Script} (h : script.Arises) :
    ∀ s ∈ script.body, s.Formed (fun x => Word.isName x = true) fun _ => True := by
  induction h with
  | parse h => exact fun s hs => (formed_of_parse h s hs).weaken
  | shift n _ ih => exact ih
  | relabel label _ ih => exact ih
  | unroll _ h ih =>
    obtain ⟨b, hb, rfl⟩ := Script.unroll_eq_ok.1 h
    exact Unroll.formed_stmts ih hb

/-- The body of the function is well-formed. -/
def Function.WellFormed (f : Function) : Prop :=
  ∀ s ∈ f.definition.body, s.Formed (fun x => Word.isName x = true) fun _ => True

/-- What stopped a computation is not that something cannot be assigned to. -/
def Stop.Assignable (stop : Stop) (_ : Store) : Prop :=
  ∀ e, stop = .error e → e.cause ≠ .typing .notAssignable

theorem Stop.assignable_error {e : RuntimeError} {t : Store}
    (h : e.cause ≠ .typing .notAssignable) : Stop.Assignable (.error e) t := by
  rintro _ ⟨⟩
  exact h

namespace Run

/-- Well-formed statements define well-formed functions, and assign to what can be assigned to. -/
theorem admits_wellFormed {b : List Stmt}
    (hb : ∀ s ∈ b, s.Formed (fun x => Word.isName x = true) fun _ => True) (source : Source) :
    Admits (Store.AllFunctions Function.WellFormed) Stop.Assignable source (Stmt.withinAll b) where
  making {s g t} hs hg ht := by
    refine Store.AllFunctions.newFunction ht fun s' hs' => ?_
    have hdefine := Stmt.forall_mem_withinAll (fun s hs => (hb s hs).within) s hs
    rw [hg.stmt] at hdefine
    cases hdefine with
    | define span hx hds horder hps hbody hformed => exact hformed s' hs'
  targets {s target} hs htarget :=
    .inl ((Stmt.forall_mem_withinAll (fun s hs => (hb s hs).within) s hs).targets target htarget)

theorem carries_wellFormed : Carries Function.WellFormed Stop.Assignable where
  steady := {
    functions := fun hst hs => Store.AllFunctions.of_functions_eq hs hst
    plain := fun h => by
      cases h with
      | error hcause => exact Stop.assignable_error (Fault.ne_of_isOrdinary hcause)
      | aborted _ => exact nofun
    fuel := fun _ => nofun
    leaving := fun {e _} _ h => Stop.assignable_error (h e rfl) }
  stray _ := Stop.assignable_error (by simp)
  script hs := admits_wellFormed hs.formed _
  body hf := admits_wellFormed hf _

end Run

/-- The natives of a host make no functions but well-formed ones, and are not stopped because
something cannot be assigned to, as long as the calls that they make are not. -/
def Host.Assigning (host : Host) : Prop :=
  ∀ {call : Caller}, call.Keeps (Store.AllFunctions Function.WellFormed) Stop.Assignable →
    ∀ name args, Run.Keeps (Store.AllFunctions Function.WellFormed) Stop.Assignable
    (host name call args)

/-- Trees are well-formed when they have been read, and they stay so.

* What is read from a text without a syntax error is well-formed, and no body in it is empty.
* Unrolling keeps statements well-formed.
* In the stores that a host comes to, nothing that a text defines tries to assign to what cannot be
  assigned to: neither programs nor calls nor functions that are made anew end so. -/
theorem trees_stay_well_formed {host : Host} (hhost : host.Assigning) :
    (∀ text : List Char, (Parsed.ofTokens (Lexed.ofText text).tokens).errors = [] →
      ∀ s ∈ (Parsed.ofTokens (Lexed.ofText text).tokens).body, s.Formed (fun _ => True) (· ≠ [])) ∧
    (∀ (N : String → Prop) (B : List Stmt → Prop) (known : Table Extent) (script script' : Script),
      (∀ s ∈ script.body, s.Formed N B) → Script.unroll known script = .ok () script' →
      ∀ s ∈ script'.body, s.Formed N fun _ => True) ∧
    ∀ s : Store, s.Reached host → ∀ (fuel : Nat) (m : Machine),
      (∀ (p : Program) (globals : NamespaceRef) (extraction? : Option NamespaceRef),
        p.toScript.Arises →
        Run.Landing (Store.AllFunctions Function.WellFormed) Stop.Assignable
          (p.run host fuel m globals extraction? s)) ∧
      (∀ (v : Value) (args : Arguments), Run.Landing (Store.AllFunctions Function.WellFormed)
        Stop.Assignable (callIn host fuel m v args s)) ∧
      ∀ (c : Closure) (rounds : Nat), c.script.Arises →
        Run.Landing (Store.AllFunctions Function.WellFormed) Stop.Assignable
          (Unroll.toRun (c.make (callIn host fuel m) rounds) s) := by
  refine ⟨fun text herrors => ?_, fun N B known script script' hformed h => ?_,
    fun s hs fuel m => ?_⟩
  · have hsound : (Cursor.ofTokens (Lexed.ofText text).tokens).Sound fun _ => True :=
      Cursor.sound_ofText fun _ _ _ _ => trivial
    generalize hparsed : Parsed.ofTokens (Lexed.ofText text).tokens = parsed at herrors
    obtain ⟨body, errors⟩ := parsed
    cases herrors
    exact Parsed.formed_ofCursor hsound.skipNewlines hparsed
  · obtain ⟨b, hb, rfl⟩ := Script.unroll_eq_ok.1 h
    exact Unroll.formed_stmts hformed hb
  · have hcalls := Run.carries_wellFormed.callIn hhost fuel m
    have hfunctions := hs.allFunctions Run.carries_wellFormed hhost
    refine ⟨fun p globals extraction? hp => ?_, fun v args => hcalls v args s hfunctions,
      fun c rounds hc => ?_⟩
    · exact Run.carries_wellFormed.execute hcalls fuel hp globals extraction? s hfunctions
    · exact Run.carries_wellFormed.make hcalls rounds hc s hfunctions

/-- A text with a loop whose target takes items apart. -/
def sampleTargets : String := "xs = ((1, 2), (3, 4))\nfor a, b in xs:\n    pass\n"

/-- Unrolls the loop and executes what becomes of the text. -/
def sampleTargetsTrial : Bool :=
  match Script.parse sampleTargets "sample" with
  | .error _ => false
  | .ok script =>
    match Script.unroll (.ofList [("xs", .sized 2)]) script with
    | .error _ _ => false
    | .ok _ script' =>
      match Program.ofScript script' "sample" with
      | .error _ => false
      | .ok p => script'.body.length == 5 &&
        ((p.run .probe 1 .captured ⟨0⟩ none).run'
          { Store.empty with namespaces := #[.empty] }).isSome

/-- The text is well-formed, the loop in it is unrolled, and what becomes of it is executed. -/
theorem sampleTargets_stays_well_formed : Host.probe.Assigning ∧ ∃ script script' p t,
    (Parsed.ofTokens (Lexed.ofText sampleTargets.toList).tokens).errors = [] ∧
    Script.parse sampleTargets "sample" = .ok script ∧
    (∀ s ∈ script.body, s.Formed (fun _ => True) (· ≠ [])) ∧
    Script.unroll (.ofList [("xs", .sized 2)]) script = .ok () script' ∧ script'.body.length = 5 ∧
    (∀ s ∈ script'.body, s.Formed (fun _ => True) fun _ => True) ∧
    Program.ofScript script' "sample" = .ok p ∧ p.toScript.Arises ∧
    p.run .probe 1 .captured ⟨0⟩ none { Store.empty with namespaces := #[.empty] } = .ok () t ∧
    t.AllFunctions Function.WellFormed := by
  have hhost : Host.probe.Assigning :=
    fun hcall => Host.probe_kept Run.carries_wellFormed.steady hcall
  have hstart : ({ Store.empty with namespaces := #[.empty] } : Store).Reached .probe :=
    .other .empty rfl
  obtain ⟨hread, hunrolls, hruns⟩ := trees_stay_well_formed hhost
  have htrial : sampleTargetsTrial = true := by decide +kernel
  unfold sampleTargetsTrial at htrial
  split at htrial
  · cases htrial
  next script hparse =>
  split at htrial
  · cases htrial
  next script' hunroll =>
  split at htrial
  · cases htrial
  next p hp =>
  obtain ⟨hlength, hrun⟩ := Bool.and_eq_true_iff.1 htrial
  obtain ⟨-, hparsed, -⟩ := (Script.parse_eq_ok script).1 hparse
  have herrors : (Parsed.ofTokens (Lexed.ofText sampleTargets.toList).tokens).errors = [] := by
    rw [hparsed]
  have hbody := hread _ herrors
  rw [hparsed] at hbody
  have harises : p.toScript.Arises := (Script.Arises.parse hparse).unroll hunroll |>.program hp
  have hland := (hruns _ hstart 1 .captured).1 p ⟨0⟩ none harises
  refine ⟨hhost, script, script', p, ?_⟩
  delta EStateM.run' EStateM.run at hrun
  split at hrun
  · next u t hok =>
    rw [hok] at hland
    exact ⟨t, herrors, hparse, hbody, hunroll, beq_iff_eq.1 hlength,
      hunrolls _ _ _ script script' hbody hunroll, hp, harises, hok, hland.after⟩
  · cases hrun

end StagedScript
