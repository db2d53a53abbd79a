import StagedScript.Proofs.Parsing.Loops
import StagedScript.Proofs.Specializing.Chosen
import StagedScript.Proofs.Stopping.Settling

/-!
# Programs that stop

Functions without `while` loops, and the programs of which all functions are such.
-/

/-!
## Functions without `while` loops

A function has no `while` loop if there is none in its tree and none in what is read for it, and for
the functions within it, from the text that they have been defined in: specialization reads this
text again.
-/

namespace StagedScript

open Stmt (Loopless)

/-! ## Unrolled statements -/

namespace Unroll

theorem loopless_roundsFrom (span : Span) (target : Expr) (x : String) {b : List Stmt}
    (hb : Loopless b) (i n : Nat) : Loopless (roundsFrom span target x b i n) := by
  induction n generalizing i with
  | zero => exact .nil
  | succ n ih =>
    rw [roundsFrom, Loopless.cons_iff, Loopless.append_iff]
    exact ⟨by simp [Loopless, Stmt.withinAll, take, Stmt.within, Stmt.isLoop], hb, ih (i + 1)⟩

variable {known : Table Extent}

mutual

theorem loopless_of_stmt (s : Stmt) (hs : Loopless [s]) {ss : List Stmt}
    (h : stmt known s = .ok ss) :
    Loopless ss := by
  cases s with
  | expr | assign | pass | ret | brk | cont =>
    cases h
    exact hs
  | cond span test a b =>
    obtain ⟨a', ha, h⟩ := Except.bind_eq_ok.1 h
    obtain ⟨b', hb, h⟩ := Except.bind_eq_ok.1 h
    cases h
    obtain ⟨hla, hlb⟩ := Loopless.cond_iff.1 hs
    exact Loopless.cond_iff.2 ⟨loopless_of_stmts a hla ha, loopless_of_stmts b hlb hb⟩
  | loop span test b => exact absurd hs Loopless.not_loop
  | define span x ds ps b =>
    obtain ⟨b', hb, h⟩ := Except.bind_eq_ok.1 h
    cases h
    exact Loopless.define_iff.2 (loopless_of_stmts b (Loopless.define_iff.1 hs) hb)
  | class_ span x base b =>
    obtain ⟨b', hb, h⟩ := Except.bind_eq_ok.1 h
    cases h
    exact Loopless.class_iff.2 (loopless_of_stmts b (Loopless.class_iff.1 hs) hb)
  | each span target iter b els =>
    obtain ⟨hlb, hlels⟩ := Loopless.each_iff.1 hs
    unfold stmt at h
    split at h
    · obtain ⟨n, -, h⟩ := Except.bind_eq_ok.1 h
      split at h
      · cases h
        exact .nil
      · obtain ⟨b', hb, h⟩ := Except.bind_eq_ok.1 h
        cases h
        rw [rounds_eq]
        exact loopless_roundsFrom span target _ (loopless_of_stmts b hlb hb) 0 n
    · obtain ⟨b', hb, h⟩ := Except.bind_eq_ok.1 h
      obtain ⟨els', hels, h⟩ := Except.bind_eq_ok.1 h
      cases h
      exact Loopless.each_iff.2 ⟨loopless_of_stmts b hlb hb, loopless_of_stmts els hlels hels⟩

/-- Unrolling makes no `while` loops. -/
theorem loopless_of_stmts (ss : List Stmt) (hss : Loopless ss) {ts : List Stmt}
    (h : stmts known ss = .ok ts) : Loopless ts := by
  cases ss with
  | nil =>
    cases h
    exact hss
  | cons s ss =>
    obtain ⟨front, hfront, h⟩ := Except.bind_eq_ok.1 h
    obtain ⟨rest, hrest, h⟩ := Except.bind_eq_ok.1 h
    cases h
    obtain ⟨hs, hss⟩ := Loopless.cons_iff.1 hss
    exact Loopless.append_iff.2 ⟨loopless_of_stmt s hs hfront, loopless_of_stmts ss hss hrest⟩

end

end Unroll

/-! ## Statements of a text -/

namespace Stmt

variable {text : String} {ss ts : List Stmt}

/-- The definition that starts so in a text has no `while` loop. -/
def Head.Loopless (h : Head) (text : String) : Prop :=
  ∃ label script b, Script.parse text label = .ok script ∧
    define h.span h.name h.decorators h.params b ∈ withinAll script.body ∧ Stmt.Loopless b

/-- There is no `while` loop among the statements, and none in what is read for the definitions
among them from their text. -/
structure LooplessIn (text : String) (ss : List Stmt) : Prop where
  loopless : Loopless ss
  heads : ∀ h ∈ headsAll ss, h.Loopless text

theorem LooplessIn.body {span : Span} {x : String} {ds : List Expr} {ps : List (Param Expr)}
    {b : List Stmt} (h : LooplessIn text ss) (hb : define span x ds ps b ∈ withinAll ss) :
    LooplessIn text b :=
  ⟨fun s hs => h.loopless s (withinAll_subset_of_define hb hs),
    fun s hs => h.heads s (List.filterMap_subset _ (withinAll_subset_of_define hb) hs)⟩

/-- Of a whole text without `while` loops nothing else has to be known. -/
theorem LooplessIn.of_parse {label : String} {script : Script}
    (h : Script.parse text label = .ok script) (hbody : Loopless script.body) :
    LooplessIn text script.body := by
  refine ⟨hbody, fun head hhead => ?_⟩
  obtain ⟨stmt, hstmt, hhead⟩ := List.mem_filterMap.1 hhead
  cases stmt with
  | define span x ds ps b =>
    cases hhead
    exact ⟨label, script, b, h, hstmt, fun s hs => hbody s (withinAll_subset_of_define hstmt hs)⟩
  | _ => cases hhead

end Stmt

/-- There is no `while` loop in a script or in what is read from its text. -/
def Script.Loopless (script : Script) : Prop := Stmt.LooplessIn script.source.text script.body

theorem Script.Loopless.unroll {script script' : Script} (h : script.Loopless)
    {known : Table Extent} (hscript : Script.unroll known script = .ok () script') :
    script'.Loopless := by
  obtain ⟨b, hb, rfl⟩ := Script.unroll_eq_ok.1 hscript
  obtain ⟨-, hheads⟩ := Unroll.sources_of_stmts script.body hb
  exact ⟨Unroll.loopless_of_stmts script.body h.loopless hb, fun head hhead =>
    h.heads head (hheads hhead)⟩

/-- Unrolling leaves the definition of a maker one. -/
theorem Script.definesMaker_of_unroll {script script' : Script} {names : List String} {span : Span}
    {known : Table Extent} (h : ∃ body, script.DefinesMaker names span body)
    (hscript : Script.unroll known script = .ok () script') :
    ∃ body, script'.DefinesMaker names span body := by
  obtain ⟨body, h⟩ := h
  obtain ⟨b, hb, rfl⟩ := Script.unroll_eq_ok.1 hscript
  rw [h] at hb
  obtain ⟨front, hfront, hb⟩ := Except.bind_eq_ok.1 hb
  obtain ⟨rest, hrest, hb⟩ := Except.bind_eq_ok.1 hb
  obtain ⟨body', -, hfront⟩ := Except.bind_eq_ok.1 hfront
  cases hfront
  cases hrest
  cases hb
  exact ⟨body', rfl⟩

/-! ## Functions -/

/-- There is no `while` loop in a function: neither in its body nor in what is read for it and for
the functions within it from its text. -/
structure Function.Loopless (f : Function) : Prop where
  head : (⟨f.origin.span, f.name, f.definition.decorators, f.definition.params⟩ :
    Stmt.Head).Loopless f.origin.source.text
  body : Stmt.LooplessIn f.origin.source.text f.definition.body

/-- A function that a statement of a text defines has no `while` loop if the text has none. -/
theorem Function.MadeBy.loopless {g : Function} {source : Source} {s : Stmt} {b : List Stmt}
    (hg : g.MadeBy source s) (hb : Stmt.LooplessIn source.text b) (hs : s ∈ Stmt.withinAll b) :
    g.Loopless := by
  have hstmt := hg.stmt ▸ hs
  have hbody := hb.body hstmt
  rw [← hg.source] at hb hbody
  refine ⟨?_, hbody⟩
  rw [hg.name]
  exact hb.heads _ (List.mem_filterMap.2 ⟨_, hstmt, rfl⟩)

/-!
## Makers

A maker is written around the lines of a function.  Its words are those of its header, those of the
definition of the function, and those of its last line, so no loop starts there unless one does
within the definition.
-/

/-- What is read for a closure has no `while` loop if the function has none. -/
theorem Closure.loopless_of_ofFunction {v : Value} {given : Table Value} {s t : Store} {c : Closure}
    (hc : ofFunction v given s = .ok c t) (hf : c.function.Sourced)
    (hloopless : c.function.Loopless) (hstart : c.function.origin.span.start < LineMap.positions) :
    c.script.Loopless := by
  obtain ⟨script, text, hwritten⟩ := written_of_ofFunction hc
  obtain ⟨herrors, -, hscript⟩ := (Script.parse_eq_ok script).1 hwritten.parse
  have hnames := isName_of_ofFunction hc hf.captured
  obtain ⟨label, whole, b, hparse, hdef, hb⟩ := hloopless.head
  obtain ⟨done, margin, k, chars, ps, behind, depth, c₁, c₂, used, hinset, hread, hused, hwords⟩ :=
    Script.exists_inset hparse hdef
  -- No word of the definition starts a loop, so no word of its maker does.
  have hkinds : .keyword .while_ ∉ Token.words (k :: ps.map Piece.kind) := by
    obtain ⟨used', hused', hnone⟩ := Parse.not_mem_of_definition hread hb
    obtain rfl := List.append_cancel_right (hused.symm.trans hused')
    rw [← hwords]
    exact fun hmem => hnone (List.mem_of_mem_filter hmem)
  have htext := text_of_stretch hwritten.render hinset.stretch hstart
  obtain ⟨ls, hakin, hall⟩ := Maker.words_of_inset hnames hf.name hinset htext herrors
  have hbody : Stmt.Loopless script.body := by
    refine Script.loopless_of_tokens hwritten.parse fun hmem => ?_
    have hword :
        .keyword .while_ ∈ Token.words ((Lexed.ofText text.toList).tokens.map Token.kind) :=
      List.mem_filter.2 ⟨hmem, rfl⟩
    rw [hall, List.mem_append, List.mem_append] at hword
    rcases hword with hheader | hdefinition | hlast
    · rw [Maker.kinds_header hnames] at hheader
      have hparam : .keyword .while_ ∈ Param.words c.vars.keys := by simpa using hheader
      rcases Param.mem_words hparam with hcomma | ⟨x, hname⟩
      · cases hcomma
      · cases hname
    · obtain ⟨i, hi, hl⟩ := List.getElem_of_mem hdefinition
      have hi' := hakin.length_eq ▸ hi
      have hj := hakin.get hi' hi
      have hmem := List.get_mem (Token.words (k :: ps.map Piece.kind)) ⟨i, hi'⟩
      generalize List.get _ ⟨i, hi'⟩ = j at hj hmem
      rw [List.get_eq_getElem, hl] at hj
      cases hj
      exact hkinds hmem
    · simp at hlast
  have hread := Stmt.LooplessIn.of_parse hwritten.parse hbody
  unfold Script.Loopless
  rw [hwritten.script]
  rw [hscript] at hread ⊢
  exact hread

end StagedScript

/-!
## Programs without `while` loops stop

Calls nest to a limited depth, and what a function does besides calling is limited by its body and
by the items that loops find when they start.  The natives for unrolling call the maker of a
function, which is one level deeper, and nothing else at their own depth.  So a program whose
functions have no `while` loops always stops.
-/

namespace StagedScript

open Run

/-! ## What calls keep -/

namespace Run

variable {T : Store → Prop} (h : Steady T (fun _ _ => True))
  (hgrown : ∀ {t : Store} (g : Function), T t → T (t.newFunction g).2)
include h hgrown

/-- What is not lost when functions are made is not lost when statements are executed. -/
theorem execAll_grown {call : Caller} (hcall : call.Keeps T (fun _ _ => True)) (rounds : Nat)
    (f : Frame) (b : List Stmt) : Keeps T (fun _ _ => True) (execAll call rounds f b) :=
  execAll_kept h hcall rounds f b ⟨fun _ _ => hgrown _, fun _ _ => .inr fun _ => trivial⟩

theorem callBody_grown {call : Caller} (hcall : call.Keeps T (fun _ _ => True)) (rounds : Nat)
    (g : Function) (args : Arguments) :
    Keeps T (fun _ _ => True) (callBody call rounds g args) := by
  refine ((Plain.bindArguments g args).kept h).bind fun t => ?_
  refine ((Plain.make fun _ => rfl).kept h).bind fun locals => ?_
  refine (execAll_grown h hgrown hcall rounds _ _).bind fun flow => ?_
  cases flow with
  | next | ret v => exact .pure _
  | brk | cont => exact .throw fun _ => trivial

theorem make_grown {call : Caller} (hcall : call.Keeps T (fun _ _ => True)) (rounds : Nat)
    (c : Closure) :
    Keeps T (fun _ _ => True) (Unroll.toRun (c.make call rounds)) := by
  unfold Closure.make
  simp only [Unroll.toRun_bind, Unroll.toRun_ofRun]
  refine ((Unroll.plain_ofExcept Unroll.isOwn_unroll _).kept h).bind fun script => ?_
  refine ((Unroll.plain_ofExcept Unroll.isOwn_compile _).kept h).bind fun program => ?_
  refine ((Plain.make fun _ => rfl).kept h).bind fun r => ?_
  have hexecute : Keeps T (fun _ _ => True)
      (program.execute call rounds c.function.globals (some r)) := by
    refine (execAll_grown h hgrown hcall rounds _ _).bind fun flow => ?_
    split
    · exact .pure _
    · exact .throw fun _ => trivial
  refine hexecute.bind fun _ => (Keeps.view _).bind fun t => ?_
  split
  · exact (Unroll.plain_throw Unroll.isOwn_noMaker).kept h
  · rw [Unroll.toRun_ofRun]
    exact hcall _ _

theorem unrollOver_grown {call : Caller} (hcall : call.Keeps T (fun _ _ => True)) (rounds : Nat)
    (names : Table Value) (v : Value) :
    Keeps T (fun _ _ => True) (Unroll.toRun (unrollOver call rounds names v)) := by
  unfold unrollOver
  rw [Unroll.toRun_bind]
  refine ((Unroll.plain_ofFunction v names).kept h).bind fun c s hs => ?_
  exact make_grown h hgrown hcall rounds _ s hs

theorem callIn_grown (fuel : Nat) (m : Machine) : (callIn .bare fuel m).Keeps T (fun _ _ => True) :=
  callIn_kept h (fun _ _ _ => (Plain.fail rfl).kept h)
    (fun hcall => unrollOver_grown h hgrown hcall)
    (fun hcall rounds _ _ _ _ _ args => callBody_grown h hgrown hcall rounds _ args) fuel m

end Run

/-! ## Stores -/

/-- Every function has been defined in its text, at a position that there is, and has no `while`
loop. -/
def Store.Straight (s : Store) : Prop :=
  ∀ r f, s.getFunction? r = some f →
    f.Sourced ∧ f.Loopless ∧ f.origin.span.start < LineMap.positions

/-- Some function has been defined behind the last position that there is. -/
def Store.Overlong (s : Store) : Prop :=
  ∃ r f, s.getFunction? r = some f ∧ LineMap.positions ≤ f.origin.span.start

theorem Store.getFunction?_newFunction_of_some {s : Store} {f : Function} {r : FunctionRef}
    (h : s.getFunction? r = some f) (g : Function) :
    (s.newFunction g).2.getFunction? r = some f := by
  obtain ⟨hlt, -⟩ := Array.getElem?_eq_some_iff.1 h
  rw [Store.getFunction?] at h
  simp only [newFunction, getFunction?, Array.getElem?_push, if_neg (Nat.ne_of_lt hlt), h]

theorem Store.watched : Watched Store.Straight Store.Overlong where
  functions hst hs r f hf := hs r f (by rwa [getFunction?, ← hst])
  steady := {
    functions := fun hst ⟨r, f, hf, hlong⟩ => ⟨r, f, by rwa [getFunction?, hst], hlong⟩
    plain := fun _ => trivial
    fuel := fun _ => trivial
    leaving := fun _ _ => trivial }
  grown := fun g ⟨r, f, hf, hlong⟩ => ⟨r, f, getFunction?_newFunction_of_some hf g, hlong⟩

/-- Making a function of a text without loops adds no loops to the store. -/
theorem Store.leads {source : Source} {b : List Stmt} (hsourced : Stmt.SourcedIn source.text b)
    (hb : Stmt.LooplessIn source.text b) : Leads Straight Overlong source (Stmt.withinAll b) where
  loopless := hb.loopless
  making {s g t} hs hg ht := by
    by_cases hstart : g.origin.span.start < LineMap.positions
    · refine .inl fun r f hf => ?_
      rcases getFunction?_newFunction hf with rfl | hf
      · exact ⟨hg.sourced hsourced hs, hg.loopless hb hs, hstart⟩
      · exact ht r f hf
    · exact .inr ⟨⟨t.functions.size⟩, g, by simp [newFunction, getFunction?],
        Nat.le_of_not_lt hstart⟩

/-! ## Calls settle -/

namespace Run

variable {α β : Type}

/-- The computation settles from stores with functions without `while` loops, unless one of them
starts behind the last position. -/
abbrev Stops (X : Nat → Run α) : Prop := Settles Store.Straight Store.Overlong X

/-- A computation that needs some fuel to start. -/
theorem Stops.of_succ {X : Nat → Run α} (hX : Stops fun n => X (n + 1))
    (hzero : Keeps Store.Overlong (fun _ _ => True) (X 0)) : Stops X where
  keeps n := by
    cases n with
    | zero => exact hzero
    | succ n => exact hX.keeps n
  ends s hs := by
    have hsucc {n k : Nat} (hk : n + 1 ≤ k) : ∃ l, k = l + 1 ∧ n ≤ l := ⟨k - 1, by omega, by omega⟩
    obtain ⟨n, ⟨r, hr, hX⟩ | hX⟩ := hX.ends s hs
    · refine ⟨n + 1, .inl ⟨r, hr, fun k hk => ?_⟩⟩
      obtain ⟨l, rfl, hl⟩ := hsucc hk
      exact hX l hl
    · refine ⟨n + 1, .inr fun k hk => ?_⟩
      obtain ⟨l, rfl, hl⟩ := hsucc hk
      exact hX l hl

/-- What follows a computation is only asked about the results that the computation has. -/
theorem Stops.bind_result {x : Run α} {K : Nat → α → Run β} (hx : Plain x)
    (hgrown : ∀ n a, Keeps Store.Overlong (fun _ _ => True) (K n a))
    (hK : ∀ {s a t}, s.Straight → x s = .ok a t → Stops fun n => K n a) :
    Stops fun n => x >>= K n where
  keeps n := (hx.kept Store.watched.steady).bind (hgrown n)
  ends s hs := by
    have ht := (Settles.of_plain hx Store.watched).ends s hs
    cases hresult : x s with
    | ok a t =>
      have hbind (k : Nat) : (x >>= K k) s = K k a t := EStateM.bind_ok hresult
      simp only [hbind]
      have hkept := hx.keeps Store.watched.functions (E := fun _ _ => True) (fun _ => trivial) s hs
      rw [hresult] at hkept
      cases hkept with
      | ok ht => exact (hK hs hresult).ends t ht
    | error stop t =>
      have hbind (k : Nat) : (x >>= K k) s = .error stop t := by
        change EStateM.bind x (K k) s = _
        unfold EStateM.bind
        rw [hresult]
      have hkept := hx.keeps Store.watched.functions Stop.Plain.final s hs
      rw [hresult] at hkept
      cases hkept with
      | error ht hstop => exact ⟨0, .inl ⟨_, .error ht hstop, fun k _ => hbind k⟩⟩

variable {calls : Nat → Caller}

theorem callBody_stops (hcalls : ∀ v args, Stops fun n => calls n v args) {g : Function}
    (hsourced : g.Sourced) (hg : g.Loopless) (args : Arguments) :
    Stops fun n => callBody (calls n) n g args := by
  have h := Store.watched
  refine (Settles.of_plain (.bindArguments g args) h).bind fun t => ?_
  refine (Settles.of_plain (.make fun _ => rfl) h).bind fun locals => ?_
  refine (execAll_settles h hcalls _ _ (Store.leads hsourced.body hg.body)).bind fun flow => ?_
  cases flow with
  | next | ret v => exact .pure _ h
  | brk | cont => exact .throw _

/-- Functions are called one level deeper. -/
theorem callIn_function_stops {m : Machine}
    (hdeeper : m.depth < Machine.maxDepth → ∀ v args, Stops fun n => callIn .bare n m.deeper v args)
    (r : FunctionRef) (args : Arguments) : Stops fun n => callIn .bare n m (.function r) args := by
  have hkept (n : Nat) :=
    callIn_grown Store.watched.steady Store.watched.grown n m (.function r) args
  refine .of_succ ?_ (hkept 0)
  unfold callIn
  dsimp only
  split
  · exact .of_plain (.fail rfl) Store.watched
  · next hdepth =>
    have hcalls := hdeeper (Nat.lt_of_not_le hdepth)
    refine .bind_result (.view _) (fun n f? => ?_) fun {s f? t} hs hf => ?_
    · cases f? with
      | some f =>
        exact callBody_grown Store.watched.steady Store.watched.grown (fun v args =>
          (hcalls v args).keeps n) n f args
      | none => exact (Plain.failNaming fun _ => rfl).kept Store.watched.steady
    · obtain ⟨hf, -⟩ := EStateM.Result.ok.inj hf
      cases f? with
      | some f =>
        obtain ⟨hsourced, hloopless, -⟩ := hs r f hf
        exact callBody_stops hcalls hsourced hloopless args
      | none => exact .of_plain (.failNaming fun _ => rfl) Store.watched

/-- A store with the maker of a script is one with another function of its text. -/
theorem withMaker_straight {s : Store} (hs : s.Straight) {script : Script}
    (hsourced : script.Sourced) (hloopless : script.Loopless) {names : List String} {span : Span}
    {body : List Stmt} (hbody : script.DefinesMaker names span body) (globals : NamespaceRef) :
    (s.withMaker (script.maker globals names span body)).Straight ∨
      (s.withMaker (script.maker globals names span body)).Overlong := by
  have hs : (s.newNamespace .empty).2.Straight := Store.watched.functions rfl hs
  have hmade : (script.maker globals names span body).MadeBy script.source
      (.define span SpecializeError.makerName [] (Param.plain Expr names) body) :=
    ⟨rfl, rfl, rfl, List.nil_subset _⟩
  have hmem : .define span SpecializeError.makerName [] (Param.plain Expr names) body ∈
      Stmt.withinAll script.body := by
    rw [hbody]
    simp [Stmt.withinAll, Stmt.within]
  exact ((Store.leads hsourced hloopless).making hmem hmade hs).imp
    (Store.watched.functions rfl) (Store.watched.steady.functions rfl)

/-- A function without `while` loops is made anew by a call of its maker, which has none either. -/
theorem make_stops (hcalls : ∀ r args, Stops fun n => calls n (.function r) args)
    (hgrown : ∀ n, (calls n).Keeps Store.Overlong (fun _ _ => True)) {v : Value}
    {given : Table Value} {s₀ t₀ : Store} {c : Closure} (hs₀ : s₀.Straight)
    (hc : Closure.ofFunction v given s₀ = .ok c t₀) (unrollings : List (Table Extent)) :
    Stops fun n => Unroll.toRun (({ c with unrollings } : Closure).make (calls n) n) where
  keeps n := make_grown Store.watched.steady Store.watched.grown (hgrown n) n _
  ends s hs := by
    obtain ⟨script, text, hwritten⟩ := Closure.written_of_ofFunction hc
    obtain ⟨r, -, hf⟩ := hwritten.function
    obtain ⟨hsourced, hloopless, hstart⟩ := hs₀ r c.function hf
    obtain ⟨span, body, hbody⟩ :=
      hwritten.definesMaker (Word.newline_not_mem_of_isName hsourced.name)
      (Closure.isName_of_ofFunction hc hsourced.captured)
    have hwhole : c.script.Loopless := Closure.loopless_of_ofFunction hc hsourced hloopless hstart
    have hread : c.script.Sourced := Closure.sourced_of_ofFunction hc
    cases hunrolled : ({ c with unrollings } : Closure).unrolled with
    | error e =>
      have hmake (n : Nat) : Unroll.toRun (({ c with unrollings } : Closure).make (calls n) n) s =
          .error (Unroll.toStop (.unroll e)) s := by
        unfold Unroll.toRun Closure.make
        rw [hunrolled]
        rfl
      exact ⟨0, .inl ⟨_, .error hs (.error _ s), fun n _ => hmake n⟩⟩
    | ok script =>
      obtain ⟨body, hbody⟩ := Closure.unrolled_induction (c := { c with unrollings })
        Script.definesMaker_of_unroll ⟨body, hbody⟩ hunrolled
      have hscript := Closure.unrolled_induction (c := { c with unrollings })
          (fun h => h.unroll) hwhole
        hunrolled
      have hread := Closure.sourced_unrolled (c := { c with unrollings }) hread hunrolled
      have heq (n : Nat) := Closure.make_eq (calls n) n hunrolled hbody s
      cases hplaced : Stmt.misplacedIn? .function body with
      | some what =>
        have hmake (n : Nat) : Unroll.toRun (({ c with unrollings } : Closure).make (calls n) n) s =
            .error (Unroll.toStop (.compile ⟨script.location what.1, .misplaced what.2, 0⟩)) s := by
          unfold Unroll.toRun
          rw [heq, hplaced]
        exact ⟨0, .inl ⟨_, .error hs (.error _ s), fun n _ => hmake n⟩⟩
      | none =>
        have hmake (n : Nat) : Unroll.toRun (({ c with unrollings } : Closure).make (calls n) n) s =
            calls n (.function ⟨s.functions.size⟩) ⟨[], c.vars⟩
              (s.withMaker (script.maker c.function.globals c.vars.keys span body)) := by
          rw [← Unroll.toRun_ofRun (calls n _ _)]
          unfold Unroll.toRun
          rw [heq, hplaced]
        simp only [hmake]
        rcases withMaker_straight hs hread hscript hbody c.function.globals with h | h
        · exact (hcalls _ _).ends _ h
        · exact ⟨0, .inr fun n _ => hgrown n _ _ _ h⟩

theorem unrollOver_stops (hcalls : ∀ r args, Stops fun n => calls n (.function r) args)
    (hgrown : ∀ n, (calls n).Keeps Store.Overlong (fun _ _ => True)) (names : Table Value)
    (v : Value) :
    Stops fun n => Unroll.toRun (unrollOver (calls n) n names v) := by
  unfold unrollOver
  simp only [Unroll.toRun_bind]
  refine .bind_result (Unroll.plain_ofFunction v names) (fun n c s hs => ?_) fun {s c t} hs hc => ?_
  · exact make_grown Store.watched.steady Store.watched.grown (hgrown n) n _ s hs
  · -- What is known about the names depends on the store, which is the same whatever the fuel.
    have hmake (known : Table Extent) := make_stops hcalls hgrown hs (Unroll.toRun_eq_ok.1 hc)
      (c.unrollings ++ [known])
    exact ⟨fun n s hs => (hmake _).keeps n s hs, fun s hs => (hmake _).ends s hs⟩

theorem callNative_stops (hcalls : ∀ r args, Stops fun n => calls n (.function r) args)
    (hgrown : ∀ n, (calls n).Keeps Store.Overlong (fun _ _ => True)) (kind : Native)
    (held : List (String × Value)) (args : Arguments) :
    Stops fun n => kind.call .bare (calls n) n held args := by
  have h := Store.watched
  unfold Native.call
  split
  · exact .of_plain (.newNative _ _) h
  · exact .of_plain (.newNative _ _) h
  · exact .of_plain (.fail rfl) h
  · exact .of_plain (.fail rfl) h
  · exact unrollOver_stops hcalls hgrown _ _
  · exact .pure _ h
  · exact .of_plain (.fail rfl) h
  · exact .of_plain (.fail rfl) h
  · exact .of_plain (.fail rfl) h

/-- Calls stop if those one level deeper do. -/
theorem callIn_stops_of_deeper {m : Machine}
    (hdeeper : m.depth < Machine.maxDepth → ∀ v args, Stops fun n => callIn .bare n m.deeper v args)
    (v : Value) (args : Arguments) : Stops fun n => callIn .bare n m v args := by
  have h := Store.watched
  have hgrown (n : Nat) : (callIn .bare n m).Keeps Store.Overlong (fun _ _ => True) :=
    callIn_grown h.steady h.grown n m
  cases v with
  | function r => exact callIn_function_stops hdeeper r args
  | native i kind held =>
    exact .of_succ (callNative_stops (callIn_function_stops hdeeper) hgrown kind held args)
      (hgrown 0 _ args)
  | builtin b => exact .of_succ (.of_plain (.callBuiltin m.sink b args) h) (hgrown 0 _ args)
  | recordType r =>
    exact .of_succ ((Settles.of_plain (.instantiate r args) h).bind fun _ => .pure _ h)
      (hgrown 0 _ args)
  | method i method => exact .of_succ (.of_plain (.callMethod method args) h) (hgrown 0 _ args)
  | _ => exact .of_succ (.of_plain (.failNaming fun _ => rfl) h) (hgrown 0 _ args)

/-- Calls stop, however many levels deeper they can go. -/
theorem callIn_stops (m : Machine) (v : Value) (args : Arguments) :
    Stops fun n => callIn .bare n m v args := by
  induction hlevels : Machine.maxDepth - m.depth generalizing m v args with
  | zero => exact callIn_stops_of_deeper (fun hlt => absurd hlt (by omega)) v args
  | succ levels ih =>
    have hdepth : m.deeper.depth = m.depth + 1 := rfl
    exact callIn_stops_of_deeper (fun _ v args => ih m.deeper v args (by omega)) v args

/-- A program whose text has no `while` loop stops. -/
theorem run_stops (m : Machine) {p : Program} (hsourced : p.toScript.Sourced)
    (hp : p.toScript.Loopless) (globals : NamespaceRef) (extraction? : Option NamespaceRef) :
    Stops fun n => p.run .bare n m globals extraction? := by
  have hall : Stops fun n => execAll (callIn .bare n m) n
      ⟨extraction?.getD globals, globals, none, p.source, p.lineOffset⟩ p.body :=
    execAll_settles Store.watched (callIn_stops m) _ _ (Store.leads hsourced hp)
  refine hall.bind fun flow => ?_
  split
  · exact .pure _ Store.watched
  · exact .throw _

end Run

/-! ## Programs -/

/-- A program that has been read from a text without `while` loops stops when it is run in a store
whose functions have none either, with the natives for unrolling alone: there is an amount of fuel
with which, and with any larger one, the run has the same result, and this is not that the fuel is
used up.  Nor is it that a comparison has no end, as long as no container holds itself.  Every
function of the store has been defined in its text, as in any store that a host comes to, and no
function of the run is defined behind the last position that there is. -/
theorem Program.run_settles {text label : String} {p : Program} (hp : ofText text label = .ok p)
    (hloopless : Stmt.Loopless p.body) {s : Store} (hs : s.Sourced)
    (hfunctions : ∀ r f, s.getFunction? r = some f → f.Loopless) (m : Machine)
    (globals : NamespaceRef) (extraction? : Option NamespaceRef)
    (hpositions : ∀ fuel, ¬ (Store.after (p.run .bare fuel m globals extraction? s)).Overlong) :
    ∃ enough r, (∀ fuel, enough ≤ fuel → p.run .bare fuel m globals extraction? s = r) ∧
      ∀ t, r ≠ .error .outOfFuel t ∧
        (r = .error (.aborted .endlessComparison) t → t.Looped) := by
  obtain ⟨script, hparse, hscript⟩ := Except.bind_eq_ok.1 hp
  have hsourced := (Script.sourced_of_parse hparse).program hscript
  have hread : p.toScript.Loopless := by
    obtain ⟨-, -, hwhole⟩ := (Script.parse_eq_ok script).1 hparse
    have hbody : Stmt.Loopless script.body := by
      rw [toScript_of_ofScript hscript] at hloopless
      exact hloopless
    have hread := Stmt.LooplessIn.of_parse hparse hbody
    rw [Script.Loopless, toScript_of_ofScript hscript]
    rw [hwhole] at hread ⊢
    exact hread
  have hstops := run_stops m hsourced hread globals extraction?
  have hstraight : s.Straight := by
    intro r f hf
    refine ⟨hs r f hf, hfunctions r f hf, ?_⟩
    by_contra hlong
    exact hpositions 0 ((hstops.keeps 0).after ⟨r, f, hf, Nat.le_of_not_lt hlong⟩)
  obtain ⟨enough, ⟨r, hr, hresult⟩ | hlong⟩ := hstops.ends s hstraight
  · refine ⟨enough, r, hresult, fun t => ⟨?_, ?_⟩⟩
    · rintro rfl
      cases hr with
      | error _ hstop => exact hstop.fueled rfl
    · rintro rfl
      cases hr with
      | error _ hstop => exact hstop.founded rfl
  · exact absurd (hlong enough (Nat.le_refl _)).after (hpositions enough)

/-! ## A function that calls itself -/

/-- A program that calls a function that calls itself:

    def f(x):
        if x:
            return f(0)
    f(1)
-/
def sampleRecursion : Program where
  body := [.define ⟨0, 39⟩ "f" [] [⟨"x", .plain none⟩] [.cond ⟨14, 39⟩ (.name ⟨17, 18⟩ "x")
      [.ret ⟨28, 39⟩ (some (.call ⟨35, 39⟩ (.name ⟨35, 36⟩ "f") [⟨.positional, .int ⟨37, 38⟩ 0⟩]))]
      []],
    .expr ⟨40, 44⟩ (.call ⟨40, 44⟩ (.name ⟨40, 41⟩ "f") [⟨.positional, .int ⟨42, 43⟩ 1⟩])]
  source := ⟨"sample", "def f(x):\n    if x:\n        return f(0)\nf(1)\n"⟩
  lineOffset := 0
  wellPlaced := by decide

/-- The function that it defines. -/
def sampleRecursive : Function where
  name := "f"
  definition := ⟨"f", [], [⟨"x", .plain none⟩], [.cond ⟨14, 39⟩ (.name ⟨17, 18⟩ "x")
      [.ret ⟨28, 39⟩ (some (.call ⟨35, 39⟩ (.name ⟨35, 36⟩ "f") [⟨.positional, .int ⟨37, 38⟩ 0⟩]))]
      []]⟩
  params := [⟨"x", .plain none⟩]
  globals := ⟨0⟩
  captured := .empty
  origin := ⟨sampleRecursion.source, 0, ⟨0, 39⟩⟩

/-- What is left of running the program in a store with one namespace, with some fuel. -/
def sampleRecursionAfter (fuel : Nat) : Store := .after
  (sampleRecursion.run .bare fuel .captured ⟨0⟩ none { Store.empty with namespaces := #[.empty] })

theorem functions_sampleRecursionAfter (fuel : Nat) :
    (sampleRecursionAfter fuel).functions = #[sampleRecursive] := by
  match fuel with
  | 0 => with_unfolding_all rfl
  | 1 => with_unfolding_all rfl
  | fuel + 2 => with_unfolding_all rfl

theorem sampleRecursionAfter_not_overlong (fuel : Nat) :
    ¬ (sampleRecursionAfter fuel).Overlong := by
  rintro ⟨r, f, hf, hlong⟩
  rw [Store.getFunction?, functions_sampleRecursionAfter] at hf
  obtain rfl := List.mem_singleton.1 (List.mem_of_getElem? (Array.getElem?_toList ▸ hf))
  exact absurd hlong (by decide)

theorem sampleRecursion_settles :
    Program.ofText sampleRecursion.source.text "sample" = .ok sampleRecursion ∧
    Stmt.Loopless sampleRecursion.body ∧ (∀ fuel, ¬ (sampleRecursionAfter fuel).Overlong) ∧
    ∃ enough r, (∀ fuel, enough ≤ fuel → sampleRecursion.run .bare fuel .captured ⟨0⟩ none
      { Store.empty with namespaces := #[.empty] } = r) ∧ ∀ t, r ≠ .error .outOfFuel t ∧
        (r = .error (.aborted .endlessComparison) t → t.Looped) := by
  have hparse : Script.parse sampleRecursion.source.text "sample" =
      .ok sampleRecursion.toScript := by
    with_unfolding_all rfl
  have htext := Program.ofText_of_parse hparse sampleRecursion.wellPlaced
  have hloopless : Stmt.Loopless sampleRecursion.body := by decide
  refine ⟨htext, hloopless, sampleRecursionAfter_not_overlong, ?_⟩
  exact Program.run_settles htext hloopless (fun _ _ hf => by cases hf) (fun _ _ hf => by cases hf)
    .captured ⟨0⟩ none sampleRecursionAfter_not_overlong

end StagedScript
