import DpLang.Text.Basic

/-!
# Pages

Text is written to a page from front to back. The page knows the number and the text of its current
line. A fork of a page is an empty page that stands at the same place, on which text can be tried
out.
-/

namespace DpLang

/-- Text under construction. -/
structure Page where
  /-- What stands on the first line in front of the written text. -/
  lead : Text
  line : Int
  /-- The written characters, the newest first. -/
  written : List Char
  deriving DecidableEq, Repr

namespace Page

/-- A page that stands behind `lead` on a line. -/
def behind (lead : Text) (line : Int) : Page := ⟨lead, line, []⟩

def blank : Page := behind [] 0

/-- The written text. -/
def value (p : Page) : Text := p.written.reverse

def write (p : Page) (t : Text) : Page :=
  { p with line := p.line + t.newlines, written := t.reverse ++ p.written }

def currentLine (p : Page) : Text :=
  let tail := (p.written.takeWhile (· != '\n')).reverse
  if p.written.contains '\n' then tail else p.lead ++ tail

def lineLength (p : Page) : Nat := p.currentLine.length

/-- The character in front of the next one. -/
def lastChar? (p : Page) : Option Char :=
  match p.written with
  | [] => p.lead.getLast?
  | c :: _ => some c

/-- An empty page that stands where this one does. -/
def fork (p : Page) : Page := behind p.currentLine p.line

/-- Writes blanks, none for an amount that is not positive. -/
def pad (p : Page) (amount : Int) : Page := p.write (List.replicate amount.toNat ' ')

/-- Writes tabs, none for a level that is not positive. -/
def indent (p : Page) (level : Int) : Page := p.write (List.replicate level.toNat '\t')

/-- An empty page at the start of a line that is indented to `level`. -/
def indented (level : Nat) : Page := behind (List.replicate level '\t') 0

end Page

end DpLang
