import StagedScript.Proofs.Basic
import StagedScript.Run.Call

/-!
# From texts to executed programs

A script whose control statements stand where they may is a program, and a program of one statement
is executed by executing this.
-/

namespace StagedScript

theorem Program.ofScript_of_placed {script : Script} (h : script.misplaced? = none) :
    Program.ofScript script script.source.label = .ok ⟨script, h⟩ := by
  unfold Program.ofScript
  dsimp only
  split
  · rfl
  · next at_ what heq => exact absurd (h.symm.trans heq) (by simp)

theorem Program.toScript_of_ofScript {script : Script} {label : String} {p : Program}
    (h : ofScript script label = .ok p) : p.toScript = script.relabel label := by
  unfold ofScript at h
  dsimp only at h
  split at h
  · cases h
    rfl
  · cases h

theorem Program.ofScript_of_misplaced {script : Script} {at_ : Span} {what : Misplaced}
    (h : script.misplaced? = some (at_, what)) :
    Program.ofScript script script.source.label =
      .error ⟨script.location at_, .misplaced what, 0⟩ := by
  unfold Program.ofScript
  dsimp only
  split
  · next heq => exact absurd (h.symm.trans heq) (by simp)
  · next at' what' heq =>
    cases h.symm.trans heq
    rfl

theorem Program.ofText_of_parse {text label : String} {body : List Stmt}
    (hparse : Script.parse text label = .ok ⟨body, ⟨label, text⟩, 0⟩)
    (hplaced : Stmt.misplacedIn? .top body = none) :
    Program.ofText text label = .ok ⟨⟨body, ⟨label, text⟩, 0⟩, hplaced⟩ := by
  unfold Program.ofText
  rw [hparse]
  exact @Program.ofScript_of_placed ⟨body, ⟨label, text⟩, 0⟩ hplaced

/-- A program of one statement is executed by executing this. -/
theorem Program.run_of_exec {host : Host} {fuel : Nat} {stmt : Stmt} {source : Source} {m : Machine}
    (hplaced : Stmt.misplacedIn? .top [stmt] = none) {g : NamespaceRef}
    {extraction? : Option NamespaceRef} {s s' : Store}
    (hexec : Run.exec (callIn host fuel m) fuel ⟨extraction?.getD g, g, none, source, 0⟩ stmt s =
      .ok .next s') :
    (⟨⟨[stmt], source, 0⟩, hplaced⟩ : Program).run host fuel m g extraction? s = .ok () s' := by
  let f : Frame := ⟨extraction?.getD g, g, none, source, 0⟩
  have hlocated : Run.locating (fun _ => f.location stmt.span)
      (Run.exec (callIn host fuel m) fuel f stmt) s = .ok .next s' := by
    unfold Run.locating
    rw [hexec]
  have hall : Run.execAll (callIn host fuel m) fuel f [stmt] s = .ok .next s' := by
    unfold Run.execAll
    refine (EStateM.bind_ok hlocated).trans ?_
    unfold Run.execAll
    rfl
  unfold Program.run Program.execute Run.execTop
  exact EStateM.bind_ok hall

end StagedScript
