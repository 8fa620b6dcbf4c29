import DpLang.Text.Basic

/-!
# Positions in a source text

A position tells the file, the line and column of a character, both counted from one, and the
number of bytes before it. The position with line zero stands for "nowhere".
-/

namespace DpLang

/-- A place in a source text. -/
structure Position where
  path : Text
  line : Int
  column : Int
  offset : Int
  deriving DecidableEq, Repr, Inhabited

namespace Position

def unknown : Position := ⟨[], 0, 0, 0⟩

/-- The position of the first character of a file. -/
def startOf (path : Text) : Position := ⟨path, 1, 1, 0⟩

/-- The position behind the character `c`. -/
def step (p : Position) (c : Char) : Position :=
  if c = '\n' then ⟨p.path, p.line + 1, 1, p.offset + c.utf8Size⟩
  else ⟨p.path, p.line, p.column + 1, p.offset + c.utf8Size⟩

def after (p : Position) (text : Text) : Position := text.foldl step p

/-- The position in the short form `path:line:column`. -/
def text (p : Position) : Text :=
  p.path ++ ":" ++ Text.ofInt p.line ++ ":" ++ Text.ofInt p.column

end Position

end DpLang
