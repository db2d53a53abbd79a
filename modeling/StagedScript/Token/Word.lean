import StagedScript.Token.Basic

/-!
# Names and reserved words

A word is a letter or underscore and the letters, digits and underscores that follow it, ASCII
alone.  Every word is a name unless it is reserved.
-/

namespace StagedScript.Word

/-- The characters that start a word. -/
def isStart (c : Char) : Bool := c.isAlpha || c == '_'

/-- The characters that continue a word. -/
def isPart (c : Char) : Bool := c.isAlphanum || c == '_'

/-- Every reserved word, those that the grammar does not use among them. -/
def reserved : List String :=
  ["False", "None", "True", "and", "as", "assert", "async", "await", "break", "class", "continue",
    "def", "del", "elif", "else", "except", "finally", "for", "from", "global", "if", "import",
    "in", "is", "lambda", "nonlocal", "not", "or", "pass", "raise", "return", "try", "while",
    "with", "yield"]

/-- Whether a text has the form of a word. -/
def isIdentifier (word : String) : Bool :=
  match word.toList with
  | [] => false
  | c :: cs => isStart c && cs.all isPart

/-- Whether a text is a reserved word, whether or not the grammar uses it. -/
def isReserved (word : String) : Bool := reserved.contains word

/-- Whether a text can stand as a name. -/
def isName (word : String) : Bool := isIdentifier word && !isReserved word

/-- What a word is read as. -/
def kind (word : String) : Token.Kind :=
  match Keyword.ofText? word with
  | some k => .keyword k
  | none => if isReserved word then .reserved word else .ident word

/-- The words of the grammar are reserved. -/
theorem isReserved_text (k : Keyword) : isReserved k.text = true := by cases k <;> decide

theorem isReserved_of_ofText? {word : String} {k : Keyword} (h : Keyword.ofText? word = some k) :
    isReserved word = true := Keyword.text_of_ofText? h ▸ isReserved_text k

theorem kind_of_isName {word : String} (h : isName word = true) : kind word = .ident word := by
  have hreserved : isReserved word = false := by
    simp only [isName, Bool.and_eq_true, Bool.not_eq_true'] at h
    exact h.2
  unfold kind
  split
  · next k hk => exact absurd (isReserved_of_ofText? hk) (by simp [hreserved])
  · rw [hreserved]
    rfl

end StagedScript.Word
