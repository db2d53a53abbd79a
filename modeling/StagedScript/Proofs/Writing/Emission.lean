import Mathlib.Data.List.Forall2
import StagedScript.Proofs.Tables
import StagedScript.Emit.Buffer

/-!
# Written lines

What is written into a buffer are lines, each indented by the depth at which it is written.
-/

namespace StagedScript

variable {σ : Type}

/-- The emission with further lines. -/
def Emission.pushed (e : Emission σ) (texts : List String) : Emission σ :=
  { e with buffer := { e.buffer with
      lines := e.buffer.lines ++ (texts.map e.buffer.indented).toArray } }

namespace Emission

theorem pushed_nil (e : Emission σ) : e.pushed [] = e := by
  simp [pushed]

theorem pushed_append (e : Emission σ) (ls ms : List String) :
    e.pushed (ls ++ ms) = (e.pushed ls).pushed ms := by
  have hindented : (e.pushed ls).buffer.indented = e.buffer.indented := rfl
  unfold pushed at hindented ⊢
  rw [hindented, List.map_append, ← List.append_toArray, Array.append_assoc]

theorem pushed_one (e : Emission σ) (text : String) :
    e.pushed [text] = { e with buffer := e.buffer.push text } := by
  simp [pushed, Buffer.push]

end Emission

namespace Emit

theorem line_ok {bindings : Bindings} {text line : String} (h : bindings.format text = .ok line)
    (e : Emission σ) : Emit.line bindings text e = .ok () (e.pushed [line]) := by
  unfold Emit.line
  rw [h, e.pushed_one]
  rfl

/-- Without bindings a line stands for itself. -/
theorem line_empty (text : String) (e : Emission σ) :
    Emit.line .empty text e = .ok () (e.pushed [text]) := line_ok rfl e

/-- Lines that can be written are written one after the other. -/
theorem forM_ok {α : Type} {f : α → Emit σ Unit} {xs : List α} {lines : List String}
    (h : List.Forall₂ (fun x line => ∀ e, f x e = .ok () (e.pushed [line])) xs lines)
    (e : Emission σ) : xs.forM f e = .ok () (e.pushed lines) := by
  induction h generalizing e with
  | nil => rw [e.pushed_nil]; rfl
  | @cons x line xs lines hx _ ih =>
    change (f x >>= fun _ => xs.forM f) e = _
    rw [EStateM.bind_ok (hx e), ih, ← e.pushed_append]
    rfl

/-- What is written deeper is indented by one step more. -/
theorem deeper_ok {body : Emit σ Unit} {texts : List String} (htexts : texts ≠ [])
    {e : Emission σ} (h : body e.enter = .ok () (e.enter.pushed texts)) :
    deeper body e = .ok () (e.enter.pushed texts).leave := by
  unfold deeper
  dsimp only
  rw [h]
  have hsize : (e.enter.pushed texts).buffer.lines.size ≠ e.buffer.lines.size := by
    have := List.length_pos_iff.2 htexts
    simp only [Emission.pushed, Emission.enter, Array.size_append, List.size_toArray,
      List.length_map]
    omega
  dsimp only
  rw [if_neg hsize]

end Emit

/-! ## Lines at several depths -/

namespace Emission

/-- The emission with further lines, each at its own depth. -/
def placed (e : Emission σ) (ls : List (Nat × String)) : Emission σ :=
  { e with buffer := { e.buffer with
      lines := e.buffer.lines ++
        (ls.map fun l => { e.buffer with depth := l.1 }.indented l.2).toArray } }

theorem placed_nil (e : Emission σ) : e.placed [] = e := by
  simp [placed]

theorem placed_append (e : Emission σ) (ls ms : List (Nat × String)) :
    e.placed (ls ++ ms) = (e.placed ls).placed ms := by
  simp only [placed, List.map_append, ← List.append_toArray, Array.append_assoc]
  rfl

/-- A line at the depth of the buffer. -/
theorem pushed_eq_placed (e : Emission σ) (text : String) :
    e.pushed [text] = e.placed [(e.buffer.depth, text)] := rfl

theorem size_placed (e : Emission σ) (ls : List (Nat × String)) :
    (e.placed ls).buffer.lines.size = e.buffer.lines.size + ls.length := by
  simp [placed]

end Emission

namespace Emit

/-- The end of a computation that writes lines, with its result. -/
def ended (r : Except EmitError Unit) (e : Emission σ) :
    EStateM.Result EmitError (Emission σ) Unit :=
  match r with
  | .ok _ => .ok () e
  | .error err => .error err e

/-- The lines of a block, of which the placeholder is one if the block is empty and has no error. -/
def filled (placeholder : String) (depth : Nat) (r : Except EmitError Unit)
    (ls : List (Nat × String)) :
    List (Nat × String) :=
  if ls.isEmpty && r.isOk then [(depth, placeholder)] else ls

theorem filled_ok (placeholder : String) (depth : Nat) (ls : List (Nat × String)) :
    filled placeholder depth (.ok ()) ls = if ls.isEmpty then [(depth, placeholder)] else ls := by
  simp [filled, Except.isOk, Except.toBool]

/-- What is written deeper is the lines of a body, or the placeholder if there are none.  A body
that ends at the depth that it starts at, with an error or without one, is left for the depth in
front of the block. -/
theorem deeper_ended {body : Emit σ Unit} {e : Emission σ} {r : Except EmitError Unit}
    {ls : List (Nat × String)} (h : body e.enter = ended r (e.enter.placed ls)) :
    deeper body e = ended r (e.placed
      (filled e.buffer.config.placeholder (e.buffer.depth + 1) r ls)) := by
  unfold deeper
  dsimp only
  rw [h]
  cases r with
  | error err =>
    rw [filled, Except.isOk, Except.toBool, Bool.and_false, if_neg Bool.false_ne_true]
    rfl
  | ok u =>
    dsimp only [ended]
    rw [Emission.size_placed]
    cases ls with
    | nil =>
      rw [Emission.placed_nil, if_pos (by rfl)]
      rfl
    | cons l ls =>
      rw [if_neg (by simp [Emission.enter])]
      rfl

end Emit

/-!
## Filled templates

What a template stands for follows from its pieces.
-/

namespace Template

theorem fillPieces_chars (template : String) (bindings : Bindings) (cs : List Char)
    (ps : List Piece) : fillPieces template bindings (cs.map .char ++ ps) =
      (cs ++ ·) <$> fillPieces template bindings ps := by
  induction cs with
  | nil => cases h : fillPieces template bindings ps <;> simp [h]
  | cons c cs ih =>
    rw [List.map_cons, List.cons_append, fillPieces, ih]
    cases fillPieces template bindings ps <;> rfl

theorem fillPieces_name {template : String} {bindings : Bindings} {x text : String}
    (hx : bindings.get? x = some text) (ps : List Piece) :
    fillPieces template bindings (.name x :: ps) =
      (text.toList ++ ·) <$> fillPieces template bindings ps := by
  rw [fillPieces, hx]

end Template

/-- A template without flaws stands for its pieces. -/
theorem Bindings.format_of_read {bindings : Bindings} (hb : bindings.isEmpty = false)
    {text : String} {ps : List Template.Piece} (hread : Template.read 0 text.toList = (ps, none))
    {cs : List Char} (hfill : Template.fillPieces text bindings ps = .ok cs) :
    bindings.format text = .ok (String.ofList cs) := by
  unfold Bindings.format Template.substitute
  rw [if_neg (by simp [hb]), hread]
  dsimp only
  rw [hfill]
  rfl

/-- A template with one name. -/
theorem Bindings.format_one {bindings : Bindings} (hb : bindings.isEmpty = false)
    {text x value : String} (before after : String)
    (hread : Template.read 0 text.toList =
      (before.toList.map .char ++ .name x :: after.toList.map .char, none))
    (hx : bindings.get? x = some value) :
    bindings.format text =
      .ok (.ofList (before.toList ++ (value.toList ++ after.toList))) := by
  refine Bindings.format_of_read hb hread ?_
  rw [Template.fillPieces_chars, Template.fillPieces_name hx,
    ← List.append_nil (after.toList.map _), Template.fillPieces_chars]
  simp [Template.fillPieces]

end StagedScript
