import StagedScript.Shape.Basic

/-!
# Comparing values

Equality and order go by what values are.  Numbers and truth values are compared as numbers; an
integer and a float as floats.  Tuples and records are compared by position, with each other too.
A container is equal to itself whatever it holds.

Nothing stops a comparison from going down again through containers that hold themselves, so that
some comparisons have no end.  These are the ones that come to where the shapes are cut.
-/

namespace StagedScript

/-- A value as a number. -/
inductive Number where
  | int (n : Int64)
  | float (x : Float)

namespace Number

/-- The number that a value is. -/
def ofShape? : Shape → Option Number
  | .bool b => some (int (if b then 1 else 0))
  | .int n => some (int n)
  | .float x => some (float x)
  | _ => none

/-- The order of two floats; what is not a number has none. -/
def compareFloats (x y : Float) : Option Ordering :=
  if x < y then some .lt
  else if x == y then some .eq
  else if y < x then some .gt
  else none

/-- The order of two numbers. -/
def compare : Number → Number → Option Ordering
  | int a, int b => some (Ord.compare a.toInt b.toInt)
  | int a, float y => compareFloats a.toFloat y
  | float x, int b => compareFloats x b.toFloat
  | float x, float y => compareFloats x y

end Number

/-- Whether both hold.  The second one is looked at only where the first one holds; where the one
that is looked at has no answer there is none. -/
@[macro_inline]
def bothHold (x y : Option Bool) : Option Bool :=
  match x with
  | some true => y
  | x => x

@[simp]
theorem bothHold_eq_some_true {x y : Option Bool} :
    bothHold x y = some true ↔ x = some true ∧ y = some true := by
  rcases x with _ | _ | _ <;> simp [bothHold]

theorem bothHold_ne_none {x y : Option Bool} (hx : x ≠ none) (hy : y ≠ none) :
    bothHold x y ≠ none := by
  rcases x with _ | _ | _
  · exact absurd rfl hx
  · exact Option.some_ne_none false
  · exact hy

mutual

/-- Whether two values are equal, if their comparison has an end. -/
def Shape.equal (a b : Shape) : Option Bool :=
  match a, b with
  | .cut c _, .cut d _ => if c = d then some true else none
  | .cut _ _, _ | _, .cut _ _ => none
  | .none_, .none_ => some true
  | .str s, .str t => some (s == t)
  | .tuple xs, .tuple ys => bothHold (some ((xs ()).size == (ys ()).size)) ((xs ()).equal (ys ()))
  | .tuple xs, .record _ _ _ ys =>
    bothHold (some ((xs ()).size == (ys ()).size)) ((xs ()).equal (ys ()))
  | .record _ _ _ xs, .tuple ys =>
    bothHold (some ((xs ()).size == (ys ()).size)) ((xs ()).equal (ys ()))
  | .record r _ _ xs, .record q _ _ ys =>
    if r = q then some true
    else bothHold (some ((xs ()).size == (ys ()).size)) ((xs ()).equal (ys ()))
  | .list r xs, .list q ys =>
    if r = q then some true
    else bothHold (some ((xs ()).size == (ys ()).size)) ((xs ()).equal (ys ()))
  | .dict r es, .dict q fs =>
    if r = q then some true
    else bothHold (some ((es ()).size == (fs ()).size)) ((es ()).among (fs ()))
  | .range r, .range q => some (r == q)
  | .function r _, .function q _ => some (r == q)
  | .builtin c, .builtin d => some (c == d)
  | .native i _, .native j _ => some (i == j)
  | .method i _ _, .method j _ _ => some (i == j)
  | .slot i, .slot j => some (i == j)
  | .recordType r _, .recordType q _ => some (r == q)
  | a, b =>
    match Number.ofShape? a, Number.ofShape? b with
    | some m, some n => some (m.compare n == some .eq)
    | _, _ => some false

/-- Whether values are equal one by one, and as many. -/
def Shapes.equal : Shapes → Shapes → Option Bool
  | .nil, .nil => some true
  | .cons a as, .cons b bs => bothHold (a.equal b) (as.equal bs)
  | _, _ => some false

/-- Whether every entry has an equal one of its name among others. -/
def NamedShapes.among : NamedShapes → NamedShapes → Option Bool
  | .nil, _ => some true
  | .cons k v es, fs =>
    bothHold
      (match fs.get? k with
        | some w => v.equal w
        | none => some false)
      (es.among fs)

end

/-- What comparing two values for their order comes to. -/
inductive Comparison where
  /-- The comparison has no end. -/
  | endless
  /-- The values have no order. -/
  | unordered
  /-- The values have an order. -/
  | order (o : Ordering)
deriving DecidableEq, Repr

namespace Comparison

/-- The order of two values, where they have one. -/
def ofOrder? : Option Ordering → Comparison
  | some o => order o
  | none => unordered

/-- An order, and where it finds no difference what a further comparison comes to. -/
@[macro_inline]
def andThen (x y : Comparison) : Comparison :=
  match x with
  | order .eq => y
  | x => x

end Comparison

mutual

/-- The order of two values, where they have one, if their comparison has an end. -/
def Shape.compare (a b : Shape) : Comparison :=
  match a, b with
  | .cut _ _, _ | _, .cut _ _ => .endless
  | .str s, .str t => .order (if s < t then .lt else if s = t then .eq else .gt)
  | .tuple xs, .tuple ys => (xs ()).compare (ys ())
  | .tuple xs, .record _ _ _ ys => (xs ()).compare (ys ())
  | .record _ _ _ xs, .tuple ys => (xs ()).compare (ys ())
  | .record _ _ _ xs, .record _ _ _ ys => (xs ()).compare (ys ())
  | .list _ xs, .list _ ys => (xs ()).compare (ys ())
  | a, b =>
    match Number.ofShape? a, Number.ofShape? b with
    | some m, some n => .ofOrder? (m.compare n)
    | _, _ => .unordered

/-- The order of two sequences: that of the first items that differ, or that of the lengths. -/
def Shapes.compare : Shapes → Shapes → Comparison
  | .nil, .nil => .order .eq
  | .nil, .cons _ _ => .order .lt
  | .cons _ _, .nil => .order .gt
  | .cons a as, .cons b bs => (a.compare b).andThen (as.compare bs)

end

namespace Store

/-- Whether two values are equal, if their comparison has an end. -/
def equal (s : Store) (a b : Value) : Option Bool := (s.shape a).equal (s.shape b)

/-- The order of two values, where they have one, if their comparison has an end. -/
def compare (s : Store) (a b : Value) : Comparison := (s.shape a).compare (s.shape b)

end Store

end StagedScript
