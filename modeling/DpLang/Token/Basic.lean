import DpLang.Position

/-!
# Tokens

A source text is a sequence of tokens. Blanks, line ends and comments are tokens too, because the
layout of the formatted text depends on where they stand.
-/

namespace DpLang

/-- The reserved words. -/
inductive Keyword where
  | autoKw | breakKw | cloneKw | continueKw | elseKw | falseKw
  | forKw | ifKw | importKw | nilKw | returnKw | trueKw
  deriving DecidableEq, Repr

namespace Keyword

/-- All reserved words. -/
def all : List Keyword :=
  [autoKw, breakKw, cloneKw, continueKw, elseKw, falseKw,
   forKw, ifKw, importKw, nilKw, returnKw, trueKw]

/-- The word as it is written. -/
def spelling : Keyword → Text
  | autoKw => "auto"
  | breakKw => "break"
  | cloneKw => "clone"
  | continueKw => "continue"
  | elseKw => "else"
  | falseKw => "false"
  | forKw => "for"
  | ifKw => "if"
  | importKw => "import"
  | nilKw => "nil"
  | returnKw => "return"
  | trueKw => "true"

def ofWord? (word : Text) : Option Keyword := all.find? fun k => k.spelling == word

end Keyword

/-- The operators and delimiters. -/
inductive Symbol where
  | plus | minus | asterisk | slash | percent
  | logicalAnd | logicalOr
  | andNot | ampersand | pipe | caret
  | shiftLeft | shiftRight
  | equal | notEqual | lessOrEqual | greaterOrEqual | less | greater
  | exclamation
  | assign | define
  | comma | period | semicolon | colons | colon | hash
  | parenLeft | bracketLeft | braceLeft
  | parenRight | bracketRight | braceRight
  deriving DecidableEq, Repr

namespace Symbol

/-- All symbols. A symbol stands before every other one that starts it. -/
def all : List Symbol :=
  [plus, minus, asterisk, slash, percent, logicalAnd, logicalOr, andNot, ampersand, pipe, caret,
   shiftLeft, shiftRight, equal, notEqual, lessOrEqual, greaterOrEqual, less, greater,
   exclamation, assign, define, comma, period, semicolon, colons, colon, hash,
   parenLeft, bracketLeft, braceLeft, parenRight, bracketRight, braceRight]

def spelling : Symbol → Text
  | plus => "+"
  | minus => "-"
  | asterisk => "*"
  | slash => "/"
  | percent => "%"
  | logicalAnd => "&&"
  | logicalOr => "||"
  | andNot => "&^"
  | ampersand => "&"
  | pipe => "|"
  | caret => "^"
  | shiftLeft => "<<"
  | shiftRight => ">>"
  | equal => "=="
  | notEqual => "!="
  | lessOrEqual => "<="
  | greaterOrEqual => ">="
  | less => "<"
  | greater => ">"
  | exclamation => "!"
  | assign => "="
  | define => ":="
  | comma => ","
  | period => "."
  | semicolon => ";"
  | colons => "::"
  | colon => ":"
  | hash => "#"
  | parenLeft => "("
  | bracketLeft => "["
  | braceLeft => "\x7b"
  | parenRight => ")"
  | bracketRight => "]"
  | braceRight => "\x7d"

/-- The first symbol in the order of `all` with which a text starts. -/
def atFront? (t : Text) : Option Symbol := all.find? fun s => s.spelling.isPrefixOf t

end Symbol

inductive TokenKind where
  /-- A run of blanks without line ends. -/
  | space
  | newline
  /-- From `//` to the end of the line. -/
  | comment
  | keyword (word : Keyword)
  | word
  | integer
  | character
  | string
  | symbol (symbol : Symbol)
  deriving DecidableEq, Repr

namespace TokenKind

def all : List TokenKind :=
  [space, newline, comment] ++ Keyword.all.map keyword ++ [word, integer, character, string] ++
    Symbol.all.map symbol

/-- The name of a kind: the spelling of the tokens that have only one. -/
def name : TokenKind → Text
  | space => "Space"
  | newline => "Newline"
  | comment => "Comment"
  | keyword k => k.spelling
  | word => "Word"
  | integer => "Integer"
  | character => "Character"
  | string => "String"
  | symbol s => s.spelling

def ofName? (name : Text) : Option TokenKind := all.find? fun k => k.name == name

end TokenKind

/-- A piece of the source text, with its place and kind. -/
structure Token where
  start : Position
  kind : TokenKind
  text : Text
  deriving DecidableEq, Repr

namespace Token

def stop (t : Token) : Position := t.start.after t.text

/-- Is the token a run of blanks? -/
def isSpace (t : Token) : Bool := t.kind == .space

end Token

end DpLang
