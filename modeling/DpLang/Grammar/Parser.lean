import DpLang.Grammar.Cursor
import DpLang.Tree.Node

/-!
# Parsers

A parser reads a construct at a cursor. It fails with a report, or it stalls. A parser stalls when
it has used up the number of steps it was given, which never happens to a parser of the grammar:
each step takes a token, and the steps are as many as the tokens.

At a point where several constructs may stand, `firstOf` tries them in order from the same cursor
and keeps the first that succeeds. If all fail, their reports become the causes of a new one.
-/

namespace DpLang

/-- Why a parser gives no result. -/
inductive Failure where
  /-- The tokens do not fit. -/
  | rejected (report : Report)
  /-- The parser ran out of steps. -/
  | stalled
  deriving Repr

/-- A reader of a construct at a cursor. -/
abbrev Parser (α : Type) := StateT Cursor (Except Failure) α

namespace Parser

variable {α : Type}

/-- Fails with a fault at a position. -/
def reject (position : Position) (fault : Fault) : Parser α :=
  throw (.rejected (.ofFault position fault))

/-- Gives up for lack of steps. -/
def stall : Parser α := throw .stalled

/-- The kind of the next token. -/
def peekKind? : Parser (Option TokenKind) := modifyGet fun c => (c.peekKind?, c.settle)

/-- The next token. -/
def peek? : Parser (Option Token) := modifyGet fun c => (c.peek?, c.settle)

/-- The position of the next token. -/
def here : Parser Position := modifyGet fun c => (c.position, c.settle)

/-- Where the construct before the cursor stops. -/
def lastStop : Parser Position := return (← get).last

/-- Takes the next token if it is of a kind. -/
def skim (wanted : TokenKind) : Parser (Option Token) := modifyGet (Cursor.skim wanted)

/-- Takes the next token if it is of a kind, and tells whether it was. -/
def skip (wanted : TokenKind) : Parser Bool := return (← skim wanted).isSome

/-- Takes the next token, which must be of a kind. -/
def take (wanted : TokenKind) (message : Text) : Parser Token := fun c =>
  match c.take wanted message with
  | (.ok token, next) => .ok (token, next)
  | (.error report, _) => .error (.rejected report)

/-- Runs a parser with as many steps as there are tokens in front of the cursor, and one more. -/
def bounded (p : Nat → Parser α) : Parser α := fun c => p (c.rest.length + 1) c

/-- The first result of the parsers at a cursor, after others that failed with `reports`. -/
def firstAfter (reports : List Report) : List (Parser α) → Parser α
  | [] => fun c =>
    match reports with
    | [report] => .error (.rejected report)
    | reports => .error (.rejected (.located c.position .noAlternative reports))
  | p :: ps => fun c =>
    match p c with
    | .ok result => .ok result
    | .error .stalled => .error .stalled
    | .error (.rejected report) => firstAfter (reports ++ [report]) ps c

def firstOf (parsers : List (Parser α)) : Parser α := firstAfter [] parsers

/-- The members of a list up to where `atEnd` holds, in at most `fuel` steps. A separator is a
member that leaves nothing. -/
def membersWithin (atEnd : Parser Bool) (member : Parser (Option α)) : Nat → Parser (List α)
  | 0 => stall
  | fuel + 1 => do
    if ← atEnd then
      return []
    let found ← member
    let others ← membersWithin atEnd member fuel
    return found.toList ++ others

/-- The members of a list up to where `atEnd` holds. -/
def members (atEnd : Parser Bool) (alternatives : List (Parser (Option α))) : Parser (List α) :=
  bounded (membersWithin atEnd (firstOf alternatives))

/-- The members of a list up to a closing symbol, which is taken. -/
def membersUntil (closing : Symbol) (alternatives : List (Parser (Option α))) : Parser (List α) :=
  members (skip (.symbol closing)) alternatives

/-- Does a token of this kind, or the end of the tokens, end a list without parentheses? -/
def endsNakedList : Option TokenKind → Bool
  | none => true
  | some kind =>
    [.symbol .braceLeft, .symbol .braceRight, .symbol .colon, .comment, .symbol .define, .newline,
      .symbol .semicolon].contains kind

/-- The members of a list without parentheses, up to the end of a construct or a token of one of
the kinds `stops`, which is not taken. -/
def nakedMembers (alternatives : List (Parser (Option α))) (stops : List TokenKind) :
    Parser (List α) :=
  members
    (do
      let kind ← peekKind?
      return endsNakedList kind || kind.any stops.contains)
    alternatives

def member (p : Parser α) : Parser (Option α) := return some (← p)

def comma : Parser (Option α) := do
  let _ ← take (.symbol .comma) "comma expected"
  return none

/-- A line end between members. -/
def newline : Parser (Option α) := do
  let _ ← take .newline "end of line expected"
  return none

def semicolon : Parser (Option α) := do
  let _ ← take (.symbol .semicolon) "semicolon expected"
  return none

def comment : Parser Node := do
  let token ← take .comment "comment expected"
  return .comment token.start token.text

/-- Passes line ends, at most `fuel` of them. -/
def skipNewlinesWithin : Nat → Parser Unit
  | 0 => return
  | fuel + 1 => do
    if ← skip .newline then
      skipNewlinesWithin fuel

/-- Passes line ends. -/
def skipNewlines : Parser Unit := bounded skipNewlinesWithin

end Parser

end DpLang
