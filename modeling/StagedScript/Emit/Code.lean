import StagedScript.Emit.Buffer
import StagedScript.Run.Call

/-!
# Generated code

Source text that is written into a buffer, compiled, and executed in a namespace of its own.  Values
can be staged in the namespace beforehand, under names that do not get in each other's way.
-/

namespace StagedScript

/-- Why generated code could not be executed. -/
inductive CodeError where
  /-- The text is no program. -/
  | compile (e : CompileError)
  /-- The program ended without a result. -/
  | run (stop : Stop)

/-- The values that are staged for generated code. -/
structure Stage where
  /-- Where the values are bound, and where the code is executed. -/
  globals : NamespaceRef
  /-- The last number that was put behind a name. -/
  counters : Table Nat

namespace Stage

/-- A name with a number behind it. -/
def numbered (name : String) (n : Nat) : String := name ++ "__" ++ toString n

/-- The first number behind a given one with which a name is not taken.  One more number than there
are names taken is enough to choose from. -/
def nextNumber (taken : Table Value) (name : String) (last : Nat) : Nat :=
  let free (n : Nat) := !taken.contains (numbered name n)
  ((List.range' (last + 1) (taken.size + 1)).find? free).getD (last + taken.size + 1)

/-- Stages a value, and tells the name that it is bound to.  The name is kept if it is free or bound
to an equal value; otherwise a number is put behind it.  There is no answer if the comparison with
the value that is bound to the name has no end. -/
def place (st : Stage) (name : String) (v : Value) (s : Store) : Option (String × Stage × Store) :=
  let taken := s.bindings st.globals
  match taken.get? name with
  | none => some (name, st, s.bind st.globals name v)
  | some old => do
    if ← s.equal old v then return (name, st, s)
    let n := nextNumber taken name ((st.counters.get? name).getD 0)
    let key := numbered name n
    return (key, { st with counters := st.counters.insert name n }, s.bind st.globals key v)

end Stage

/-- A computation that executes generated code. -/
abbrev Generate := EStateM CodeError Store

/-- Compiles a text and executes it in a namespace, with calls that print to the standard output. -/
def Generate.execute (host : Host) (fuel : Nat) (text label : String) (globals : NamespaceRef) :
    Generate Unit := fun s =>
  match Program.ofText text label with
  | .error e => .error (.compile e) s
  | .ok p =>
    match p.run host fuel .fresh globals none s with
    | .ok _ s => .ok () s
    | .error stop s => .error (.run stop) s

end StagedScript
