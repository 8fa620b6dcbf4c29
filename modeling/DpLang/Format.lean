import DpLang.Grammar.Declaration
import DpLang.Layout.File
import DpLang.Source

/-!
# Formatting

A source text is cut into tokens, read as a syntax tree and written again in its canonical layout.
-/

namespace DpLang

/-- Why a source text cannot be formatted. -/
inductive FormatError where
  /-- The source is not a text of the language. -/
  | rejected (report : Report)
  /-- The parser gave up. -/
  | stalled
  | layout (fault : LayoutFault)
  deriving Repr

namespace FormatError

def ofFailure : Failure → FormatError
  | .rejected report => .rejected report
  | .stalled => .stalled

def report : FormatError → Report
  | rejected report => report
  | stalled => .plain "parser stalled"
  | layout fault => .plain fault.message

end FormatError

/-- The tokens of a source with the given path. -/
def readTokens (path : Text) (source : Source) : Except FormatError (List Token) :=
  (source.tokenize (.startOf path)).mapError .rejected

/-- The syntax tree of a token sequence. -/
def readNodes (tokens : List Token) : Except FormatError (List Node) :=
  (parse tokens).mapError .ofFailure

/-- The text of a syntax tree in its canonical layout. -/
def writeNodes (nodes : List Node) : Except FormatError Text := (layout nodes).mapError .layout

/-- A source text in its canonical layout. -/
def format (path : Text) (source : Source) : Except FormatError Text := do
  writeNodes (← readNodes (← readTokens path source))

end DpLang
