import DpLang.Layout.Page
import DpLang.Tree.Node

/-!
# Lists over several lines

The members of a list stand on lines of their own, with the blank lines of the source kept as far
as one. Comments behind members on neighbouring lines start in the same column. That column is
known only when all members have been seen, so a list is written twice: once to measure, on a fork,
and once for good.
-/

namespace DpLang

/-- The space in front of a member of a list. -/
inductive Gap where
  /-- A comment stays behind the member before it. -/
  | sameLine
  | nextLine
  | blankLine
  deriving DecidableEq, Repr

namespace Gap

/-- The space in front of a node that follows something that stops on `previous`. -/
def before (previous : Int) (node : Node) : Gap :=
  let step := node.start.line - previous
  if step = 0 && node.isComment then .sameLine else if step ≤ 1 then .nextLine else .blankLine

/-- Writes the space, with the indentation of a new line. -/
def write (gap : Gap) (level : Nat) (page : Page) : Page :=
  match gap with
  | sameLine => page.write [' ']
  | nextLine => (page.write ['\n']).indent level
  | blankLine => (page.write ['\n', '\n']).indent level

end Gap

/-- What is written for a member of a list. -/
inductive Item where
  /-- Text that does not depend on its neighbours. -/
  | code (text : Text)
  /-- A comment in a common column with its neighbours. -/
  | aligned (text : Text)
  /-- A comment by itself. -/
  | alone (text : Text)
  deriving DecidableEq, Repr

/-- A member of a list with the space in front of it. -/
structure Entry where
  gap : Gap
  item : Item
  deriving DecidableEq, Repr

/-- The columns in which comments start. Lines with comments that start in the same column have the
same cell. -/
structure CommentColumns where
  /-- The cell of each line with a comment, the newest first. -/
  lines : List (Int × Nat)
  cells : List Nat
  deriving DecidableEq, Repr

namespace CommentColumns

def empty : CommentColumns := ⟨[], []⟩

def cell? (columns : CommentColumns) (line : Int) : Option Nat := columns.lines.lookup line

def column (columns : CommentColumns) (cell : Nat) : Nat := columns.cells.getD cell 0

/-- Gives a line a cell of its own. -/
def fresh (columns : CommentColumns) (line : Int) (column : Nat) : CommentColumns :=
  ⟨(line, columns.cells.length) :: columns.lines, columns.cells ++ [column]⟩

/-- Gives a line a cell that is in use, and moves the cell to the right if the line needs it. -/
def join (columns : CommentColumns) (line : Int) (cell column : Nat) : CommentColumns :=
  ⟨(line, cell) :: columns.lines, columns.cells.modify cell (max column)⟩

end CommentColumns

/-- How a list is written. -/
structure ListStyle where
  level : Nat
  /-- A comment that starts no further right than this does not align the comments below it. -/
  floor : Nat
  /-- Is the alignment of comments broken behind a member over several lines? -/
  breaksAlignment : Bool
  deriving DecidableEq, Repr

namespace ListStyle

/-- Writes a comment in the column of its line. A line that has none yet takes that of the line
above, or else the column where the page stands. -/
def writeComment (style : ListStyle) (text : Text) (page : Page) (columns : CommentColumns) :
    Page × CommentColumns :=
  match columns.cell? page.line with
  | some cell => ((page.pad (columns.column cell - page.lineLength)).write text, columns)
  | none =>
    let columns :=
      match columns.cell? (page.line - 1) with
      | some cell =>
        if columns.column cell ≤ style.floor then columns.fresh page.line page.lineLength
        else columns.join page.line cell page.lineLength
      | none => columns.fresh page.line page.lineLength
    (page.write text, columns)

/-- Writes what belongs to a member. -/
def writeItem (style : ListStyle) (item : Item) (page : Page) (columns : CommentColumns) :
    Page × CommentColumns :=
  match item with
  | .code text => (page.write text, columns)
  | .aligned text => style.writeComment text page columns
  | .alone text => (page.write text, columns)

/-- Writes a member with the space in front of it. -/
def writeEntry (style : ListStyle) (entry : Entry) (page : Page) (columns : CommentColumns) :
    Page × CommentColumns :=
  let page := entry.gap.write style.level page
  let (written, columns) := style.writeItem entry.item page columns
  if style.breaksAlignment && written.line ≠ page.line then
    (written, columns.fresh written.line 0)
  else (written, columns)

/-- Writes all members once. -/
def pass (style : ListStyle) : List Entry → Page → CommentColumns → Page × CommentColumns
  | [], page, columns => (page, columns)
  | entry :: entries, page, columns =>
    let (page, columns) := style.writeEntry entry page columns
    pass style entries page columns

def measure (style : ListStyle) (entries : List Entry) (page : Page) : CommentColumns :=
  (style.pass entries page.fork .empty).2

def write (style : ListStyle) (entries : List Entry) (page : Page) : Page :=
  (style.pass entries page (style.measure entries page)).1

end ListStyle

end DpLang
