import DpLang.Layout.Page
import DpLang.Tree.Kind

/-!
# Aligned columns

Declarations, parameters and fields on neighbouring lines are written in aligned columns. The width
of a column is kept in a cell, and rows below each other share the cells of all columns but the
last one of the upper row. A cell is as wide as the longest value in it, with a blank behind it.
-/

namespace DpLang

/-- Do values that start on a line need several lines? -/
def spansLines (startLine : Int) (nodes : List Node) : Bool :=
  nodes.any fun node => startLine < node.stop.line || node.isComment

/-- Is the node written on a line of its own? -/
def Node.onOneLine : Node → Bool
  | .variableDef start _ values _ => !spansLines start.line values
  | _ => true

namespace Columns

/-- Puts the values of a row into cells: those of the row above as far as they are shared, then new
ones. `widths` are the widths of all cells so far. The result is the cells of the row and the new
widths. -/
def place : List Nat → List Text → List Nat → List Nat × List Nat
  | _, [], widths => ([], widths)
  | cell :: next :: above, value :: values, widths =>
    let (row, widths) := place (next :: above) values (widths.modify cell (max (value.length + 1)))
    (cell :: row, widths)
  | _, value :: values, widths =>
    let (row, newWidths) := place [] values (widths ++ [value.length + 1])
    (widths.length :: row, newWidths)

/-- The cells of each node of a list, none for a node without columns. `previous` is the line on
which the node before the list stops, `above` the row on the line above, and `widths` the widths of
the cells so far. -/
def cells (columns : Node → List Text) (previous : Option Int) (above widths : List Nat) :
    List Node → List (Option (List Nat)) × List Nat
  | [] => ([], widths)
  | node :: nodes =>
    let step := previous.map (node.start.line - ·)
    let next := some node.stop.line
    if step == some 0 && node.isComment then
      let (rows, widths) := cells columns next above widths nodes
      (none :: rows, widths)
    else
      match columns node with
      | [] =>
        let (rows, widths) := cells columns next [] widths nodes
        (none :: rows, widths)
      | values =>
        let (row, widths) := place (if step.any (1 < ·) then [] else above) values widths
        let (rows, widths) := cells columns next (if node.onOneLine then row else []) widths nodes
        (some row :: rows, widths)

/-- The column widths of each node of a list, none for a node without columns. -/
def widths (columns : Node → List Text) (nodes : List Node) : List (Option (List Nat)) :=
  let (rows, widths) := cells columns none [] [] nodes
  rows.map fun row => row.map fun cells => cells.map fun cell => widths.getD cell 0

/-- Writes the values of a row, each but the last padded to its width. -/
def write (page : Page) : List Text → List Nat → Except LayoutFault Page
  | [], _ => .ok page
  | [value], _ => .ok (page.write value)
  | value :: values, width :: widths =>
    write ((page.write value).pad (width - value.length)) values widths
  | _ :: _ :: _, [] => .error .missingWidth

/-- The columns of a statement: those of declarations and definitions of variables. -/
def ofStatement : Node → List Text
  | .variableDecl _ names _ _ => [Text.join ", " names, ":"]
  | .variableDef _ names _ _ => [Text.join ", " names, ":="]
  | _ => []

def ofParameter : Node → List Text
  | .parameter _ name (some type) _ => [name, type.type.text]
  | _ => []

def ofField : Node → List Text
  | .field _ name type access _ =>
    [name, type.type.text] ++ if access = .hidden then [] else [access.text]
  | _ => []

end Columns

end DpLang
