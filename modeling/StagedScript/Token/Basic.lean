import StagedScript.Source.Basic

/-!
# Tokens

The words and signs of the language, and the tokens that a text is read as.  Every keyword and
every symbol has one spelling.
-/

namespace StagedScript

/-- The words that the grammar uses. -/
inductive Keyword where
  | def_ | class_ | return_ | pass_ | if_ | elif_ | else_ | for_ | in_ | while_ | break_
  | continue_ | and_ | or_ | not_ | is_ | none_ | true_ | false_
deriving DecidableEq, Repr, Inhabited

namespace Keyword

/-- Every keyword. -/
def all : List Keyword :=
  [def_, class_, return_, pass_, if_, elif_, else_, for_, in_, while_, break_, continue_, and_, or_,
    not_, is_, none_, true_, false_]

/-- How a keyword is spelled. -/
def text : Keyword → String
  | def_ => "def" | class_ => "class" | return_ => "return" | pass_ => "pass" | if_ => "if"
  | elif_ => "elif" | else_ => "else" | for_ => "for" | in_ => "in" | while_ => "while"
  | break_ => "break" | continue_ => "continue" | and_ => "and" | or_ => "or" | not_ => "not"
  | is_ => "is" | none_ => "None" | true_ => "True" | false_ => "False"

/-- The keyword with a spelling. -/
def ofText? (word : String) : Option Keyword := all.find? (·.text == word)

theorem mem_all (k : Keyword) : k ∈ all := by cases k <;> simp [all]

theorem text_of_ofText? {word : String} {k : Keyword} (h : ofText? word = some k) : k.text = word :=
  beq_iff_eq.1 (List.find?_some (p := fun k : Keyword => k.text == word) h)

end Keyword

/-- The operators and delimiters. -/
inductive Symbol where
  | plus | minus | star | power | slash | floorSlash | percent | assign | equal | notEqual | less
  | greater | lessEqual | greaterEqual | ampersand | bar | caret | tilde | shiftLeft | shiftRight
  | addAssign | subAssign | mulAssign | divAssign | floorDivAssign | modAssign | atSign | dot
  | openParen | closeParen | openBracket | closeBracket | openBrace | closeBrace
  | comma | colon | semicolon
deriving DecidableEq, Repr, Inhabited

namespace Symbol

/-- Every symbol, the longer spellings first. -/
def all : List Symbol :=
  [floorDivAssign,
    power, floorSlash, equal, notEqual, lessEqual, greaterEqual, shiftLeft, shiftRight, addAssign,
    subAssign, mulAssign, divAssign, modAssign,
    plus, minus, star, slash, percent, assign, less, greater, ampersand, bar, caret, tilde, atSign,
    dot,
    openParen, closeParen, openBracket, closeBracket, openBrace, closeBrace, comma, colon,
    semicolon]

/-- The characters of a symbol. -/
def chars : Symbol → List Char
  | plus => ['+'] | minus => ['-'] | star => ['*'] | power => ['*', '*'] | slash => ['/']
  | floorSlash => ['/', '/'] | percent => ['%'] | assign => ['='] | equal => ['=', '=']
  | notEqual => ['!', '='] | less => ['<'] | greater => ['>'] | lessEqual => ['<', '=']
  | greaterEqual => ['>', '='] | ampersand => ['&'] | bar => ['|'] | caret => ['^']
  | tilde => ['~'] | shiftLeft => ['<', '<'] | shiftRight => ['>', '>']
  | addAssign => ['+', '='] | subAssign => ['-', '='] | mulAssign => ['*', '=']
  | divAssign => ['/', '='] | floorDivAssign => ['/', '/', '='] | modAssign => ['%', '=']
  | atSign => ['@'] | dot => ['.'] | openParen => ['('] | closeParen => [')']
  | openBracket => ['['] | closeBracket => [']'] | openBrace => ['\x7b'] | closeBrace => ['\x7d']
  | comma => [','] | colon => [':'] | semicolon => [';']

/-- How a symbol is spelled. -/
def text (s : Symbol) : String := String.ofList s.chars

/-- The longest symbol at the start of a text. -/
def atStart? (cs : List Char) : Option Symbol := all.find? (·.chars.isPrefixOf cs)

/-- Whether a symbol opens a bracket. -/
def opens : Symbol → Bool
  | openParen | openBracket | openBrace => true
  | _ => false

/-- Whether a symbol closes a bracket. -/
def closes : Symbol → Bool
  | closeParen | closeBracket | closeBrace => true
  | _ => false

theorem mem_all (s : Symbol) : s ∈ all := by cases s <;> simp [all]

end Symbol

namespace Token

/-- What a token is. -/
inductive Kind where
  /-- An integer literal. -/
  | int (n : Int64)
  /-- A float literal. -/
  | float (x : Float)
  /-- A string literal, its escapes decoded. -/
  | str (text : String)
  /-- A name. -/
  | ident (name : String)
  /-- A word that the grammar uses. -/
  | keyword (k : Keyword)
  /-- A word that may not be a name although the grammar does not use it. -/
  | reserved (word : String)
  /-- An operator or a delimiter. -/
  | symbol (s : Symbol)
  /-- The end of a logical line. -/
  | newline
  /-- The start of an indented block. -/
  | indent
  /-- The end of an indented block. -/
  | dedent
  /-- The end of the text. -/
  | eof
deriving Inhabited

namespace Kind

/-- Whether two kinds are the same with what they carry left aside. -/
def alike : Kind → Kind → Bool
  | int _, int _ | float _, float _ | str _, str _ | ident _, ident _ | reserved _, reserved _ =>
    true
  | keyword a, keyword b => a == b
  | symbol a, symbol b => a == b
  | newline, newline | indent, indent | dedent, dedent | eof, eof => true
  | _, _ => false

/-- Whether a kind comes from the layout of the text, and stands for no characters of its own. -/
def isLayout : Kind → Bool
  | newline | indent | dedent => true
  | _ => false

/-- How messages name a kind. -/
def describe : Kind → String
  | int _ => "integer"
  | float _ => "float"
  | str _ => "string"
  | ident name => s!"'{name}'"
  | reserved word => s!"'{word}'"
  | keyword k => s!"'{k.text}'"
  | symbol s => s!"'{s.text}'"
  | newline => "end of line"
  | indent => "indented block"
  | dedent => "end of block"
  | eof => "end of file"

end Kind

end Token

/-- A token: what it is and where it stands. -/
structure Token where
  /-- What it is. -/
  kind : Token.Kind
  /-- Where it stands. -/
  span : Span
deriving Inhabited

end StagedScript
