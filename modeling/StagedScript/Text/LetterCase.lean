import StagedScript.Text.CaseTable
import StagedScript.Text.Ranges

/-!
# Upper and lower case

The case of whole texts.  A letter may have an upper case of several characters, and the lower case
of the capital sigma depends on its place: at the end of a word it is the final sigma.
-/

namespace StagedScript.Text

/-- The image of a code point in a table of runs. -/
def runImage? (runs : List CaseRun) (n : Nat) : Option Nat :=
  (runs.find? fun (low, high, step, _) => low ≤ n && n ≤ high && (n - low) % step == 0).map
    fun (_, _, _, distance) => (n + distance).toNat

/-- The image of a character in a table of runs and a table of letters with longer images. -/
def caseImage (runs : List CaseRun) (specials : List (Nat × List Nat)) (c : Char) : List Char :=
  match specials.lookup c.toNat with
  | some image => image.map Char.ofNat
  | none => [((runImage? runs c.toNat).map Char.ofNat).getD c]

/-- The upper case of a text. -/
def upper (cs : List Char) : List Char := cs.flatMap (caseImage upperRuns upperSpecials)

/-- Whether the first character that is not passed over has a case. -/
def meetsCased (cs : List Char) : Bool :=
  match cs.dropWhile (inRanges caseIgnorableRanges) with
  | c :: _ => inRanges casedRanges c
  | [] => false

/-- The lower case of a text; `before` are the characters in front of it, the nearest first. -/
def lowerBehind (before : List Char) : List Char → List Char
  | [] => []
  | c :: cs =>
    let image :=
      if c = 'Σ' then [if meetsCased before && !meetsCased cs then 'ς' else 'σ']
      else caseImage lowerRuns lowerSpecials c
    image ++ lowerBehind (c :: before) cs

/-- The lower case of a text. -/
def lower (cs : List Char) : List Char := lowerBehind [] cs

end StagedScript.Text
