import StagedScript.Emit.Buffer
import StagedScript.Emit.Template
import StagedScript.Run.Basic
import StagedScript.Run.Exec
import StagedScript.Specialize.Unroll
import StagedScript.Token.Word

/-!
# Specializing functions

A function is made anew with some of its free names fixed.  The text of its definition is put into
another function, whose parameters are the names:

    def make(<names>):
        <definition>
        return <name of the function>

This is read, perhaps unrolled, executed with the globals of the function, and called with the
values of the names.  The decorator that asks for unrolling is given a value that does nothing, so
that it is not applied again.
-/

/-!
## Errors of specialization
-/

namespace StagedScript

/-- Why a function could not be specialized. -/
inductive SpecializeError where
  /-- The value is no function. -/
  | notFunction (type : String)
  /-- A name that is to be given a value cannot be that of a parameter. -/
  | badName (name : String)
  /-- The text that was written does not define the maker of the function. -/
  | noMaker
  /-- A line could not be written. -/
  | emit (e : EmitError)
  /-- The text that was written is no program. -/
  | compile (e : CompileError)
  /-- A loop cannot be unrolled. -/
  | unroll (e : UnrollError)
  /-- The program ended without a result. -/
  | run (stop : Stop)

namespace SpecializeError

/-- The name of the function that makes a specialized one. -/
def makerName : String := "make"

/-- The message of an error; a program that was given too little fuel or brought the process down
has none. -/
def message : SpecializeError → String
  | notFunction type => s!"cannot specialize a value of type '{type}'"
  | badName name => s!"'{name}' cannot be used as a parameter name"
  | noMaker => s!"generated unit did not define '{makerName}'"
  | emit e => e.message
  | compile e => e.message
  | unroll e => e.message
  | run (.error e) => e.message
  | run .outOfFuel | run (.aborted _) => ""

end SpecializeError

/-- A computation that specializes functions. -/
abbrev Specialize := EStateM SpecializeError Store

namespace Specialize

/-- A computation over the store as a part of specialization. -/
def ofRun {α : Type} (x : Run α) : Specialize α := fun s =>
  match x s with
  | .ok a s => .ok a s
  | .error stop s => .error (.run stop) s

/-- The result of a step with errors of its own. -/
def ofExcept {α ε : Type} (wrap : ε → SpecializeError) : Except ε α → Specialize α
  | .ok a => pure a
  | .error e => throw (wrap e)

end Specialize

/-- A function together with the values of free names, ready to be made anew. -/
structure Closure where
  /-- The function. -/
  function : Function
  /-- The values of the names. -/
  vars : Table Value
  /-- The text around the definition, as it was read. -/
  script : Script
  /-- The unrollings that are still to be done, the first one first. -/
  unrollings : List (Table Extent)

namespace Closure

/-- A value with a fixed number of items, where it has items: they are put into a tuple. -/
def fixed (v : Value) : Run Value := do
  match v with
  | .list _ | .dict _ | .range _ | .record _ => Run.newTuple (← Run.items v)
  | v => return v

/-- The values that are given for names, as far as they count. -/
def fixedAll : List (String × Value) → Specialize (List (String × Value))
  | [] => return []
  | (name, v) :: es => do
    if !Word.isName name then throw (.badName name)
    if name = unrollName then fixedAll es
    else
      let v ← Specialize.ofRun (fixed v)
      return (name, v) :: (← fixedAll es)

/-- The values of names: those given for them come before those that the function has captured. -/
def varsOf (given : List (String × Value)) (captured : Table Value) (passing : Value) :
    Table Value :=
  let given := Table.ofList given
  let more := captured.entries.filter fun (name, _) => !given.contains name
  (given.insertAll more).insert unrollName passing

/-- Writes the function around a definition. -/
def write (f : Function) (names : List String) : Emit Unit Unit := do
  let params := ArgText.list (names.map (⟨·, none⟩)) none none
  Emit.line .empty ("def " ++ SpecializeError.makerName ++ "(" ++ params ++ "):")
  Emit.deeper do
    Emit.block .empty f.sourceText
    Emit.words .empty ["return", f.name]

/-- The text of the function around a definition. -/
def render (f : Function) (names : List String) : Except EmitError String :=
  match write f names ⟨.empty .standard, ()⟩ with
  | .ok _ e => .ok e.buffer.text
  | .error e _ => .error e

/-- A function with values for free names, which take precedence over those that it has
captured.  The lines of the text around its definition are reported as those of the definition. -/
def ofFunction (v : Value) (given : Table Value) : Specialize Closure := do
  let type ← Specialize.ofRun (Run.typeName v)
  match v with
  | .function r =>
    match ← Specialize.ofRun (Run.view (·.getFunction? r)) with
    | none => throw (.notFunction type)
    | some f =>
      let given ← fixedAll given.entries
      let passing ← Specialize.ofRun (Run.newNative .passing [])
      let vars := varsOf given f.captured passing
      let text ← Specialize.ofExcept .emit (render f vars.keys)
      let script ← Specialize.ofExcept .compile (Script.parse text f.origin.source.label)
      return ⟨f, vars, script.shift (f.firstLine - 2), []⟩
  | _ => throw (.notFunction type)

/-- What is known beforehand about the items of a value. -/
def extentOf (s : Store) : Value → Extent
  | .tuple _ items => .sized items.length
  | .str _ text => .sized text.length
  | v => .unsized (s.typeName v)

/-- The closure with the loops over some of its names to be unrolled. -/
def unrolling (c : Closure) (known : Table Extent) : Closure :=
  { c with unrollings := c.unrollings ++ [known] }

/-- What is known about the names of a closure that satisfy a test. -/
def known (c : Closure) (s : Store) (p : String → Bool) : Table Extent :=
  (c.vars.filter fun name _ => p name).map (extentOf s)

/-- The script of a closure with its unrollings done. -/
def unrolled (c : Closure) : Except UnrollError Script :=
  match c.unrollings.forM Script.unroll c.script with
  | .ok _ script => .ok script
  | .error e _ => .error e

/-- The function of a closure, made anew. -/
def make (call : Caller) (rounds : Nat) (c : Closure) : Specialize Value := do
  let script ← Specialize.ofExcept .unroll c.unrolled
  let program ← Specialize.ofExcept .compile (Program.ofScript script script.source.label)
  let extraction ← Specialize.ofRun (Run.make (·.newNamespace .empty))
  Specialize.ofRun (program.execute call rounds c.function.globals (some extraction))
  match (← Specialize.ofRun (Run.view (·.bindings extraction))).get? SpecializeError.makerName with
  | none => throw .noMaker
  | some maker => Specialize.ofRun (call maker ⟨[], c.vars⟩)

end Closure

/-- Another function with the same definition, globals and captured values, and an identity of its
own. -/
def cloneFunction (v : Value) : Specialize Value := do
  let type ← Specialize.ofRun (Run.typeName v)
  match v with
  | .function r =>
    match ← Specialize.ofRun (Run.view (·.getFunction? r)) with
    | some f => return .function (← Specialize.ofRun (Run.make (·.newFunction f)))
    | none => throw (.notFunction type)
  | _ => throw (.notFunction type)

/-- A function made anew with values for free names and the loops over these names unrolled. -/
def unrollOver (call : Caller) (rounds : Nat) (names : Table Value) (v : Value) :
    Specialize Value := do
  let c ← Closure.ofFunction v names
  let known := c.known (← get) fun name => names.contains name && name != unrollName
  (c.unrolling known).make call rounds

end StagedScript
