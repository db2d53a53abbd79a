import StagedScript.Host.Basic
import StagedScript.Specialize.Closure

/-!
# The decorator that unrolls loops

A program asks for unrolling by a decorator: called with names and values it gives a native callable
that makes a function anew, with the values fixed and the loops over them unrolled.  Within the text
that this executes, the decorator of the same name does nothing.
-/

namespace StagedScript

namespace Unroll

/-- Fails because the decorator is called with arguments by place. -/
def failPlaces {α : Type} : Run α := Host.fail unrollName "takes keyword arguments only"

/-- Fails because what the decorator gives is not applied to one value. -/
def failCount {α : Type} (count : Nat) : Run α :=
  Host.fail unrollName s!"decorator takes exactly one argument ({count} given)"

/-- An error of specialization as one of the run that asked for it. -/
def toStop : SpecializeError → Stop
  | .run stop => stop
  | e => .error ⟨none, .native unrollName e.message⟩

/-- Specialization as a part of a run. -/
def toRun {α : Type} (x : Specialize α) : Run α := fun s =>
  match x s with
  | .ok a s => .ok a s
  | .error e s => .error (toStop e) s

end Unroll

/-- Calls a native callable. -/
def Native.call (host : Host) (call : Caller) (rounds : Nat) (kind : Native)
    (held : List (String × Value)) (args : Arguments) : Run Value :=
  match kind, args.positional with
  | .unrolling, [] => Run.newNative .unroller args.named.entries
  | .passing, [] => Run.newNative .passer []
  | .unrolling, _ | .passing, _ => Unroll.failPlaces
  | .unroller, [v] => Unroll.toRun (unrollOver call rounds (.ofList held) v)
  | .passer, [v] => return v
  | .unroller, vs | .passer, vs => Unroll.failCount vs.length
  | .host name, _ => host name call args

end StagedScript
