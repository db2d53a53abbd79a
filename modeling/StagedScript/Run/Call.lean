import StagedScript.Run.Builtin
import StagedScript.Specialize.Decorator

/-!
# Calls

Calling a value ties evaluation together: the body of a function is executed with calls that are
one level deeper.  Calls of functions nest to a limited depth.  What keeps native callables from
calling each other for ever, and `while` loops from running for ever, is the fuel: with too little
of it a run ends without a result, and with more of it the result of a run that has one is the same.
-/

namespace StagedScript

/-- Where calls take place. -/
structure Machine where
  /-- How many calls of functions surround them. -/
  depth : Nat
  /-- Where printed text goes. -/
  sink : Sink
deriving DecidableEq, Repr

namespace Machine

/-- The number of calls of functions that can be nested. -/
def maxDepth : Nat := 100

/-- The machine of a host that reads what is printed. -/
def captured : Machine := ⟨0, .captured⟩

/-- A machine that prints to the standard output. -/
def fresh : Machine := ⟨0, .stdout⟩

/-- The machine for the body of a function. -/
def deeper (m : Machine) : Machine := { m with depth := m.depth + 1 }

end Machine

/-- Calls a value. -/
def callIn (host : Host) : Nat → Machine → Caller
  | 0, _ => fun _ _ => throw .outOfFuel
  | fuel + 1, m => fun callee args => do
    match callee with
    | .function r =>
      if Machine.maxDepth ≤ m.depth then Run.fail (.depth Machine.maxDepth)
      else
        match ← Run.view (·.getFunction? r) with
        | some f => Run.callBody (callIn host fuel m.deeper) fuel f args
        | none => Run.failTyping (.notCallable (← Run.typeName callee))
    | .builtin b => Run.callBuiltin m.sink b args
    | .native _ kind held => kind.call host (callIn host fuel m) fuel held args
    | .recordType r => return .record (← Run.instantiate r args)
    | .method _ method => Run.callMethod method args
    | callee => Run.failTyping (.notCallable (← Run.typeName callee))

/-- Executes a program on a machine. -/
def Program.run (host : Host) (fuel : Nat) (m : Machine) (p : Program) (globals : NamespaceRef)
    (extraction? : Option NamespaceRef) : Run Unit :=
  p.execute (callIn host fuel m) fuel globals extraction?

end StagedScript
