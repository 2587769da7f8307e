import ClockedC.Location

/-!
# Tokens

A token is a lexeme and the location of its first character. Keywords and symbols are spelled in one way each;
numbers, string literals and identifiers carry their text.

* `Keyword.spelling`, `Symbol.spelling` : how the fixed lexemes are written;
* `Keyword.ofSpelling?` : the keyword that a word stands for;
* `Lexeme.describe` : how a message names a lexeme.
-/

namespace ClockedC

/-! ## Keywords -/

/-- The reserved words. -/
inductive Keyword where
  | int
  | float
  | double
  | char
  | void
  | struct
  | ifWord
  | elseWord
  | whileWord
  | forWord
  | breakWord
  | continueWord
  | returnWord
  deriving DecidableEq, Repr

namespace Keyword

/-- Every keyword. -/
def all : List Keyword :=
  [int, float, double, char, void, struct, ifWord, elseWord, whileWord, forWord, breakWord, continueWord,
    returnWord]

/-- How a keyword is written. -/
def spelling : Keyword → String
  | int => "int"
  | float => "float"
  | double => "double"
  | char => "char"
  | void => "void"
  | struct => "struct"
  | ifWord => "if"
  | elseWord => "else"
  | whileWord => "while"
  | forWord => "for"
  | breakWord => "break"
  | continueWord => "continue"
  | returnWord => "return"

/-- The keyword written `word`, if there is one. -/
def ofSpelling? (word : String) : Option Keyword :=
  all.find? fun keyword => keyword.spelling = word

/-- A keyword is read back from its spelling. -/
theorem ofSpelling?_spelling (keyword : Keyword) : ofSpelling? keyword.spelling = some keyword := by
  cases keyword <;> decide +kernel

/-- Only the spelling of a keyword is read as it. -/
theorem spelling_of_ofSpelling? {word : String} {keyword : Keyword}
    (h : ofSpelling? word = some keyword) : keyword.spelling = word := by
  simpa using List.find?_some h

end Keyword

/-! ## Symbols -/

/-- The operators and punctuation marks. -/
inductive Symbol where
  | increment
  | decrement
  | equal
  | notEqual
  | lessEqual
  | greaterEqual
  | shiftLeft
  | shiftRight
  | andAnd
  | orOr
  | plus
  | minus
  | star
  | slash
  | percent
  | assign
  | less
  | greater
  | bang
  | ampersand
  | bar
  | caret
  | tilde
  | dot
  | openParen
  | closeParen
  | openBrace
  | closeBrace
  | openBracket
  | closeBracket
  | semicolon
  | comma
  deriving DecidableEq, Repr

namespace Symbol

/-- Every symbol, those of two characters first, so that the first match is the longest. -/
def longestFirst : List Symbol :=
  [increment, decrement, equal, notEqual, lessEqual, greaterEqual, shiftLeft, shiftRight, andAnd, orOr,
    plus, minus, star, slash, percent, assign, less, greater, bang, ampersand, bar, caret, tilde, dot,
    openParen, closeParen, openBrace, closeBrace, openBracket, closeBracket, semicolon, comma]

/-- How a symbol is written. -/
def spelling : Symbol → String
  | increment => "++"
  | decrement => "--"
  | equal => "=="
  | notEqual => "!="
  | lessEqual => "<="
  | greaterEqual => ">="
  | shiftLeft => "<<"
  | shiftRight => ">>"
  | andAnd => "&&"
  | orOr => "||"
  | plus => "+"
  | minus => "-"
  | star => "*"
  | slash => "/"
  | percent => "%"
  | assign => "="
  | less => "<"
  | greater => ">"
  | bang => "!"
  | ampersand => "&"
  | bar => "|"
  | caret => "^"
  | tilde => "~"
  | dot => "."
  | openParen => "("
  | closeParen => ")"
  | openBrace => "\x7b"
  | closeBrace => "\x7d"
  | openBracket => "["
  | closeBracket => "]"
  | semicolon => ";"
  | comma => ","

/-- The symbol that a text begins with, the longest one if there are two. -/
def leading? (cs : List Char) : Option Symbol :=
  longestFirst.find? fun symbol => symbol.spelling.toList.isPrefixOf cs

theorem mem_longestFirst (symbol : Symbol) : symbol ∈ longestFirst := by
  cases symbol <;> decide

theorem spelling_ne_nil (symbol : Symbol) : symbol.spelling.toList ≠ [] := by
  cases symbol <;> decide +kernel

/-- A text begins with the spelling of its leading symbol. -/
theorem spelling_isPrefixOf_of_leading? {cs : List Char} {symbol : Symbol}
    (h : leading? cs = some symbol) : symbol.spelling.toList <+: cs := by
  simpa using List.find?_some h

end Symbol

/-! ## Lexemes -/

/-- What a token says, its location left out. -/
inductive Lexeme where
  /-- A numeral, with its text. -/
  | number (text : String)
  /-- A string literal, with the text between its quotes as written. -/
  | string (text : String)
  /-- A name that is no keyword. -/
  | identifier (name : String)
  | keyword (keyword : Keyword)
  | symbol (symbol : Symbol)
  /-- The end of the source. -/
  | eof
  deriving DecidableEq, Repr

namespace Lexeme

/-- How a message names a lexeme. -/
def describe : Lexeme → String
  | number text => "number " ++ text
  | string text => "string literal \"" ++ text ++ "\""
  | identifier name => "identifier '" ++ name ++ "'"
  | keyword k => "'" ++ k.spelling ++ "'"
  | symbol s => "'" ++ s.spelling ++ "'"
  | eof => "end of file"

/-- Whether a lexeme is a reserved word. -/
def isKeyword : Lexeme → Bool
  | keyword _ => true
  | _ => false

end Lexeme

/-- A lexeme and the location of its first character. -/
structure Token where
  lexeme : Lexeme
  loc : Location
  deriving DecidableEq, Repr

end ClockedC
