import DpLang.Layout.Expression

/-!
# Layout of statements

A block has a line for each of its statements. Imports in a block are not written there: all imports
of a file stand together.
-/

namespace DpLang

/-- The nodes of a list that are written in place. -/
def withoutImports (nodes : List Node) : List Node := nodes.filter (!·.isImport)

def blockStyle (level : Nat) : ListStyle := { level, floor := level, breaksAlignment := true }

/-- Writes a block with the given statements, which are indented to `level`. -/
def writeBraces (level : Nat) (entries : List Entry) (page : Page) : Page :=
  if entries.isEmpty then page.write "\x7b\x7d"
  else
    let page := (blockStyle level).write entries (page.write ['\x7b'])
    ((page.write ['\n']).indent (level - 1 : Nat)).write ['\x7d']

def writeTarget (level : Nat) (page : Page) : Node → Except LayoutFault Page
  | .assignerDereference _ name _ => .ok (page.write (dereferenceText name))
  | node@(.call _ _ _) => writeExpr level 0 false false page node
  | .index name subscript _ => do
    let page ← writeExpr 0 0 true false (page.write (name.text ++ ['['])) subscript
    return page.write [']']
  | .selector s => .ok (page.write s.text)
  | node => .error (.outOfPlace .assignList node.kind)

def writeTargets (level : Nat) (first : Bool) (page : Page) :
    List Node → Except LayoutFault Page
  | [] => .ok page
  | node :: nodes => do
    let page ← writeTarget level (if first then page else page.write ", ") node
    writeTargets level false page nodes

mutual
/-- Writes a statement on a line that is indented to `level`. `row` has the widths of its columns,
if it has columns. -/
def writeStatement (level : Nat) (row : Option (List Nat)) (page : Page) :
    Node → Except LayoutFault Page
  | .assign start targets values _ => do
    let page ← writeTargets (level + 1) true page targets
    writeValues (level + 1) start.line ['(', '\x7b'] (page.write " = ") values
  | .block start body _ => do
    let rows := Columns.widths Columns.ofStatement (withoutImports body)
    return writeBraces (level + 1) (← blockEntries (level + 1) start.line rows body) page
  | .jump _ .breakLoop _ => .ok (page.write "break")
  | .jump _ .continueLoop _ => .ok (page.write "continue")
  | .expression value => writeGuarded (level + 1) page value
  | .forLoop _ none bodyStart body _ => do
    let rows := Columns.widths Columns.ofStatement (withoutImports body)
    let entries ← blockEntries (level + 1) bodyStart.line rows body
    return writeBraces (level + 1) entries (page.write "for ")
  | .forLoop _ (some test) bodyStart body _ => do
    let page ← writeGuarded (level + 1) (page.write "for ") test
    let rows := Columns.widths Columns.ofStatement (withoutImports body)
    let entries ← blockEntries (level + 1) bodyStart.line rows body
    return writeBraces (level + 1) entries (page.write [' '])
  | .ifElse _ test thenStart thenBody thenStop elseBody _ => do
    let page ← writeGuarded (level + 1) (page.write "if ") test
    let rows := Columns.widths Columns.ofStatement (withoutImports thenBody)
    let entries ← blockEntries (level + 1) thenStart.line rows thenBody
    let page := writeBraces (level + 1) entries (page.write [' '])
    let rows := Columns.widths Columns.ofStatement (withoutImports elseBody)
    let entries ← blockEntries (level + 1) thenStop.line rows elseBody
    return if entries.isEmpty then page
      else writeBraces (level + 1) entries (page.write " else ")
  | .returnValues start values _ =>
    let page := page.write (if values.isEmpty then "return" else "return ")
    writeValues (level + 1) start.line ['\x7b'] page values
  | node@(.variableDecl _ _ type _) => do
    let page ← Columns.write page (Columns.ofStatement node) (row.getD [])
    return page.write (' ' :: ((type.map fun spec => spec.type.text).getD "auto"))
  | node@(.variableDef start _ values _) => do
    let page ← Columns.write page (Columns.ofStatement node) (row.getD [])
    writeValues (level + 1) start.line ['(', '\x7b'] (page.write [' ']) values
  | node => .error (.outOfPlace .block node.kind)

/-- The entries of the statements of a block that follow something that stops on `previous`. `rows`
has the column widths of the statements that are not imports. -/
def blockEntries (level : Nat) (previous : Int) (rows : List (Option (List Nat))) :
    List Node → Except LayoutFault (List Entry)
  | [] => .ok []
  | .importNames _ _ _ _ :: nodes => blockEntries level previous rows nodes
  | node@(.comment _ source) :: nodes => do
    let entries ← blockEntries level node.stop.line rows.tail nodes
    return ⟨.before previous node, .aligned (Text.strip source)⟩ :: entries
  | node :: nodes => do
    let page ← writeStatement level (rows.head?.getD none) (.indented level) node
    let entries ← blockEntries level node.stop.line rows.tail nodes
    return ⟨.before previous node, .code page.value⟩ :: entries
end

/-- Writes a block whose opening brace stands on a line of the source. -/
def writeBlock (level : Nat) (startLine : Int) (page : Page) (nodes : List Node) :
    Except LayoutFault Page := do
  let rows := Columns.widths Columns.ofStatement (withoutImports nodes)
  return writeBraces level (← blockEntries level startLine rows nodes) page

end DpLang
