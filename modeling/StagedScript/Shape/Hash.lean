import StagedScript.Shape.Order

/-!
# Hashing values

What a value contributes to a hash, as a sequence of parts.  Numbers that are equal contribute the
same as long as they are exact in both forms, and so do tuples and records.
-/

namespace StagedScript

/-- A part of what a value contributes to a hash. -/
inductive HashPart where
  /-- The mark of `None`. -/
  | none_
  /-- An integer. -/
  | int (n : Int64)
  /-- The bits of a float. -/
  | bits (b : UInt64)
  /-- The mark of a sequence by position. -/
  | positional
  /-- A number of items, or a place. -/
  | count (n : Nat)
  /-- A text. -/
  | text (s : String)
  /-- A builtin. -/
  | builtin (b : Builtin)
  /-- An object that is told from others by its place alone. -/
  | object (kind : String) (place : Nat)
deriving DecidableEq, Repr

namespace Number

/-- What a number contributes.  A whole float below `9.2 · 10 ^ 18` contributes as an integer. -/
def hashPart : Number → HashPart
  | int n => .int n
  | float x =>
    let whole := x.isFinite && x.toInt64.toFloat == x
    if whole && x.abs < 9.2e18 then .int x.toInt64 else .bits x.toBits

end Number

mutual

/-- What a value contributes to a hash. -/
def Shape.hashParts : Shape → List HashPart
  | .none_ => [.none_]
  | .bool b => [Number.hashPart (.int (if b then 1 else 0))]
  | .int n => [Number.hashPart (.int n)]
  | .float x => [Number.hashPart (.float x)]
  | .str s => [.text s]
  | .tuple items => .positional :: .count (items ()).size :: (items ()).hashParts
  | .record _ _ _ items => .positional :: .count (items ()).size :: (items ()).hashParts
  | .list _ items => .count (items ()).size :: (items ()).hashParts
  | .dict _ entries => (entries ()).hashParts
  | .range r => [.int r.start, .int r.stop, .int r.step]
  | .slot i => [.count i]
  | .builtin b => [.builtin b]
  | .function r _ => [.object "function" r.index]
  | .native i _ => [.object "native" i]
  | .method i _ _ => [.object "method" i]
  | .recordType r _ => [.object "type" r.index]
  | .cut _ _ => []

/-- What the items of a sequence contribute. -/
def Shapes.hashParts : Shapes → List HashPart
  | .nil => []
  | .cons v vs => v.hashParts ++ vs.hashParts

/-- What the entries of a dict contribute, in their order. -/
def NamedShapes.hashParts : NamedShapes → List HashPart
  | .nil => []
  | .cons k v es => .text k :: v.hashParts ++ es.hashParts

end

end StagedScript
