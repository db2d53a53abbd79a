import StagedScript.Proofs.Maker.Body
import StagedScript.Proofs.Specializing.Reported

/-!
# What a function is bound to when it is made anew

The definition of a function without decorators is read again from its maker.  What the function
captures then are the values that are chosen for the names that it needs from outside.
-/

namespace StagedScript

namespace Closure

variable {v : Value} {given : Table Value} {s t : Store} {c : Closure}

/-- The text of a maker is its header, the lines of the function with a margin, and its last
line. -/
theorem text_of_stretch {f : Function} {names : List String} {text : String}
    (h : render f names = .ok text) {done margin chars behind : List Char}
    (hf : Stretch f.origin.source.chars f.origin.span done margin chars behind)
    (hstart : f.origin.span.start < LineMap.positions) :
    text.toList = Piece.text (Maker.header names) ++
      (Text.below 4 (Text.dedent (margin ++ chars)) ++ Maker.ending f.name) := by
  have hlast : Maker.ending f.name =
      Text.below 4 [(" ".intercalate ["return", f.name]).toList] := by
    simp [Maker.ending, Maker.returnLine, Piece.text, Piece.word, Piece.newline, Text.below]
  rw [text_of_render h, makerLines, List.map_append]
  change _ ++ Text.below 4 (List.map _ (Emit.blockOf (f.origin.source.linesOf _)) ++ _) = _
  rw [hf.toList_blockOf hstart, Text.below, List.flatMap_append, hlast]
  rfl

/-- The text of a maker spells the definition of the function. -/
theorem spells_of_ofFunction (hc : ofFunction v given s = .ok c t) (hf : c.function.Sourced)
    (hd : c.function.definition.decorators = [])
    (hstart : c.function.origin.span.start < LineMap.positions) :
    ∃ chars qs, Maker.Spells c.function.name chars qs ∧ c.script.source.chars =
      Piece.text (Maker.pieces c.vars.keys Maker.margin chars qs c.function.name) := by
  obtain ⟨script, text, hwritten⟩ := written_of_ofFunction hc
  obtain ⟨herrors, -, hscript⟩ := (Script.parse_eq_ok script).1 hwritten.parse
  have hnames := isName_of_ofFunction hc hf.captured
  obtain ⟨done, margin, chars, ps, behind, hsite⟩ : ∃ done margin chars ps behind,
      Site c.function.origin.source.chars c.function.origin.span c.function.name done
      margin chars ps
        behind := by
    obtain ⟨label, script, hparse, hhead⟩ := hf.head
    obtain ⟨stmt, hstmt, hhead⟩ := List.mem_filterMap.1 hhead
    cases stmt with
    | define span x ds params b =>
      rw [hd] at hhead
      cases hhead
      exact Script.exists_site hparse hstmt
    | _ => cases hhead
  have htext := text_of_stretch hwritten.render hsite.stretch hstart
  rw [htext] at herrors
  obtain ⟨chars', qs, hspells, hbelow⟩ := Maker.spells_of_site hnames hf.name hsite herrors
  refine ⟨chars', qs, hspells, ?_⟩
  have hchars : c.script.source.chars = text.toList := by
    rw [hwritten.script, hscript]
    rfl
  rw [hchars, htext, hbelow, Maker.text_pieces]

/-- What has been read for a closure is the definition of a maker, whose body is a definition with
the name of the function. -/
theorem definesBody_of_ofFunction (hc : ofFunction v given s = .ok c t) (hf : c.function.Sourced)
    (hd : c.function.definition.decorators = [])
    (hstart : c.function.origin.span.start < LineMap.positions) :
    ∃ makerSpan span at_ spanName ps b, c.script.DefinesMaker c.vars.keys makerSpan
      (Maker.body span at_ spanName ⟨c.function.name, [], ps, b⟩) := by
  obtain ⟨chars, qs, hspells, hchars⟩ := spells_of_ofFunction hc hf hd hstart
  obtain ⟨script, text, hwritten⟩ := written_of_ofFunction hc
  have htext : text.toList = c.script.source.chars := by
    obtain ⟨-, -, hscript⟩ := (Script.parse_eq_ok script).1 hwritten.parse
    rw [hwritten.script, hscript]
    rfl
  obtain ⟨makerSpan, at_, spanName, ps, b, hbody, -⟩ := hspells.definesMaker c.vars.nodup
    (isName_of_ofFunction hc hf.captured) hf.name (htext.trans hchars) hwritten.parse
  refine ⟨makerSpan, Maker.span c.vars.keys chars qs, at_, spanName, ps, b, ?_⟩
  rw [hwritten.script]
  exact hbody

end Closure

/-! ## Names that are not captured -/

/-- In calls of the function the name stands for a global or for a builtin. -/
def Function.LeavesGlobal (host : Host) (g : Function) (x : String) : Prop :=
  ∀ (fuel : Nat) (machine : Machine) (args : Arguments) (s : Store),
    ∀ m ∈ Moment.ofCall (callIn host fuel machine) fuel g args s, m.classes = [] →
      m.frame.find? m.store x =
        ((m.store.bindings g.globals).get? x <|> (Builtin.visible? x).map .builtin)

/-- A name that a function needs from outside and has not captured stands for a global or for a
builtin when the function is called. -/
theorem Function.leavesGlobal {host : Host} (hhost : host.Parametric) {g : Function}
    (hg : Param.names g.params = Param.names g.definition.params) {x : String}
    (hx : x ∈ g.definition.freeNames) (hnone : g.captured.get? x = none) :
    g.LeavesGlobal host x := by
  intro fuel machine args s m hm hplain
  have hin := Moment.inCall (callIn_preserves hhost fuel machine) fuel m hm
  have hbound : x ∉ m.bound := by
    rw [(hin.own hplain).1, Function.bound, hg]
    have hx := (List.mem_filter.1 (List.mem_eraseDups.1 hx)).2
    simpa using hx
  rw [hin.find? hbound, hnone]
  rfl

/-! ## The function that is made -/

namespace Closure

variable {host : Host} {v : Value} {given : Table Value} {s t : Store} {c : Closure}

/-- A function without decorators that is made anew has the globals of the one that it is made of,
and it captures exactly the values that are chosen for the names that its definition, which has been
read again, needs from outside.  The others stand for globals when it is called.  This is about
definitions that start at a position that there is. -/
theorem make_binds_chosen (hparametric : host.Parametric) (hsourced : host.Sourced)
    (hs : s.Reached host) (hc : ofFunction v given s = .ok c t)
    (hd : c.function.definition.decorators = [])
    (hstart : c.function.origin.span.start < LineMap.positions) {fuel rounds : Nat} {m : Machine}
    {s₁ u : Store} {w : Value} (hmake : c.make (callIn host fuel m) rounds s₁ = .ok w u) :
    ∃ r g makerSpan span at_ spanName, w = .function r ∧ u.getFunction? r = some g ∧
      c.script.DefinesMaker c.vars.keys makerSpan (Maker.body span at_ spanName g.definition) ∧
      g.name = c.function.name ∧ g.globals = c.function.globals ∧
      Function.Chosen s given c.function g ∧
      ∀ x ∈ g.definition.freeNames, g.captured.get? x = none → g.LeavesGlobal host x := by
  obtain ⟨script, text, hwritten⟩ := written_of_ofFunction hc
  obtain ⟨r, -, hf⟩ := hwritten.function
  obtain ⟨makerSpan, span, at_, spanName, ps, b, hbody⟩ :=
    definesBody_of_ofFunction hc (hs.sourced hsourced r c.function hf) hd hstart
  cases fuel with
  | zero =>
    rw [make_eq _ _ (unrolled_eq_script hwritten.unrollings) hbody] at hmake
    split at hmake
    · cases hmake
    · cases hmake
  | succ fuel =>
    obtain ⟨-, -, params, s₂, hparams, rfl, rfl⟩ :=
      (make_eq_ok hparametric.confined hwritten.unrollings rfl hbody rfl).1 hmake
    refine ⟨_, _, makerSpan, _, at_, spanName, rfl, Store.getFunction?_withFunction _ _ _,
      hbody, rfl, rfl, ?_, fun x hx hnone => ?_⟩
    · exact chosen_of_ofFunction hc
        (Script.get?_captured_remade (callIn_confined hparametric.confined fuel m.deeper) hparams)
    · exact Function.leavesGlobal hparametric (Run.names_of_evalParams hparams) hx hnone

end Closure

/-- The function within a block is made anew with a value for the global that it returns. -/
theorem sampleIndented_binds : ∃ c t w u r g, Host.probe.Parametric ∧ Host.probe.Sourced ∧
    sampleBehind.Reached .probe ∧
    Closure.ofFunction (.function ⟨0⟩) (.ofList [("x", .bool true)]) sampleBehind = .ok c t ∧
    c.function.definition.decorators = [] ∧ c.function.origin.span.start < LineMap.positions ∧
    c.make (callIn .probe 1 .captured) 1 t = .ok w u ∧ w = .function r ∧ u.getFunction? r = some g ∧
    g.name = "f" ∧ g.globals = ⟨0⟩ ∧
    Function.Chosen sampleBehind (.ofList [("x", .bool true)]) sampleIndentedFunction g := by
  have hmade : ((Closure.ofFunction (.function ⟨0⟩) (.ofList [("x", .bool true)]) >>= fun c =>
      c.make (callIn .probe 1 .captured) 1).run' sampleBehind).isSome = true := by decide +kernel
  cases hresult : (Closure.ofFunction (.function ⟨0⟩) (.ofList [("x", .bool true)]) >>= fun c =>
      c.make (callIn .probe 1 .captured) 1) sampleBehind with
  | error e u =>
    delta EStateM.run' EStateM.run at hmade
    rw [hresult] at hmade
    cases hmade
  | ok w u =>
    obtain ⟨c, t, hc, hmake⟩ := EStateM.bind_eq_ok.1 hresult
    have hf : c.function = sampleIndentedFunction := by
      obtain ⟨-, -, ⟨r, hr, hf⟩, -⟩ := Closure.written_of_ofFunction hc
      cases hr
      exact Option.some.inj (hf.symm.trans getFunction?_sampleBehind)
    have hd : c.function.definition.decorators = [] := by
      rw [hf]
      rfl
    have hstart : c.function.origin.span.start < LineMap.positions := by
      rw [hf]
      decide
    obtain ⟨r, g, -, -, -, -, hw, hg, -, hname, hglobals, hchosen, -⟩ :=
      Closure.make_binds_chosen Host.parametric_probe Host.sourced_probe sampleBehind_reached
      hc hd hstart
        hmake
    rw [hf] at hname hglobals hchosen
    exact ⟨c, t, w, u, r, g, Host.parametric_probe, Host.sourced_probe, sampleBehind_reached,
      hc, hd, hstart, hmake, hw, hg, hname, hglobals, hchosen⟩

end StagedScript
