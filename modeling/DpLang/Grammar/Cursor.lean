import DpLang.Report
import DpLang.Token.Basic

/-!
# Cursors

A cursor stands between two tokens of a file. It passes over blanks by itself. It remembers where
the construct before it stops: at the next token that is not blank, or behind the last token that
was taken if nothing follows.
-/

namespace DpLang

/-- A place in a token sequence. -/
structure Cursor where
  rest : List Token
  /-- How many tokens have been passed. -/
  index : Nat
  /-- Where the construct before the cursor stops. -/
  last : Position
  finish : Position
  deriving DecidableEq, Repr

namespace Cursor

def ofTokens (tokens : List Token) : Cursor where
  rest := tokens
  index := 0
  last := .unknown
  finish := (tokens.getLast?.map Token.stop).getD .unknown

/-- Passes the blanks in front of the next token. -/
def settle (c : Cursor) : Cursor :=
  { c with
    rest := c.rest.dropWhile Token.isSpace
    index := c.index + (c.rest.takeWhile Token.isSpace).length }

/-- The next token that is not blank. -/
def peek? (c : Cursor) : Option Token := c.settle.rest.head?

/-- The kind of the next token that is not blank. -/
def peekKind? (c : Cursor) : Option TokenKind := c.peek?.map Token.kind

/-- The position of the next token that is not blank, or the end of the tokens. -/
def position (c : Cursor) : Position := (c.peek?.map Token.start).getD c.finish

/-- The cursor behind `token`, which is followed by `rest`. -/
def behind (c : Cursor) (token : Token) (rest : List Token) : Cursor :=
  let next := { c with rest, index := c.index + 1 }.settle
  { next with last := (next.rest.head?.map Token.start).getD token.stop }

/-- Takes the next token if it is of the wanted kind. Blanks in front of it are passed anyway. -/
def skim (wanted : TokenKind) (c : Cursor) : Option Token × Cursor :=
  match c.settle.rest with
  | [] => (none, c.settle)
  | token :: rest =>
    if token.kind = wanted then (some token, c.settle.behind token rest) else (none, c.settle)

/-- Takes the next token, which must be of the wanted kind. -/
def take (wanted : TokenKind) (message : Text) (c : Cursor) : Except Report Token × Cursor :=
  match c.skim wanted with
  | (some token, next) => (.ok token, next)
  | (none, next) => (.error (.ofFault next.position (.unexpectedToken message)), next)

end Cursor

end DpLang
