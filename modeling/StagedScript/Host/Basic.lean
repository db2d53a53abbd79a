import StagedScript.Run.Basic

/-!
# Hosts

A host binds native callables of its own.  They are told apart by their names, and can call values
themselves.
-/

namespace StagedScript

/-- What the native callables of a host do, by their names. -/
abbrev Host := String → Caller → Arguments → Run Value

namespace Host

/-- Fails with a message of a native callable. -/
def fail {α : Type} (name message : String) : Run α := Run.fail (.native name message)

/-- The host without native callables. -/
def bare : Host := fun name _ _ => Run.fail (.undefined name)

/-- Gives the arguments back: those by place in a tuple, those by name in a dict. -/
def echo (args : Arguments) : Run Value := do
  let places ← Run.newTuple args.positional
  Run.newTuple [places, ← Run.newDict args.named]

/-- Fails with the text of the first argument. -/
def failWith (name : String) (args : Arguments) : Run Value := do
  match args.positional with
  | [] => fail name ""
  | v :: _ => fail name (← Run.text v)

/-- Calls the first argument with the others. -/
def applyFirst (name : String) (call : Caller) (args : Arguments) : Run Value :=
  match args.positional with
  | [] => fail name "nothing to apply"
  | callee :: places => call callee { args with positional := places }

/-- The names of the native callables for trying out a host. -/
def probeNames : List String := ["echo", "fail", "apply"]

/-- The host for trying out native callables: one that gives its arguments back, one that fails
and one that calls. -/
def probe : Host := fun name call args =>
  match name with
  | "echo" => echo args
  | "fail" => failWith name args
  | "apply" => applyFirst name call args
  | name => bare name call args

end Host

end StagedScript
