import DpLang.Layout.Columns
import DpLang.Layout.Listing

/-!
# Layout of expressions

Binary operators stand between blanks, except where an operator of the highest precedence is inside
another one: there, and in subscripts on the left side of an assignment, they are written tight.
Parentheses are written where the precedences need them.

A list of values stands on one line, or between parentheses with a line for each value if the source
spreads it over several lines or has comments in it.
-/

namespace DpLang

/-- The precedence around the operand of an operator that stands in front of it. -/
def ultimatePrecedence : Nat := 6

/-- A name in parentheses. -/
def dereferenceText (name : Text) : Text := '(' :: name ++ [')']

/-- Writes an operator in front of its operand, with a blank where it would run together with what
stands before it. The identity is not written. -/
def PrefixOp.write (op : PrefixOp) (page : Page) : Page :=
  let apart := if page.lastChar? == some '&' then page.write [' '] else page
  match op with
  | address => apart.write ['&']
  | clone => page.write "clone "
  | dereference => page.write ['*']
  | unary .identity => page
  | unary .complement => apart.write ['^']
  | unary op => page.write op.text

/-- How a binary operation is written inside an operator of precedence `outer`, which is zero if
there is none: tight or not, in parentheses or not. -/
structure BinaryStyle where
  tight : Bool
  parens : Bool
  deriving DecidableEq, Repr

namespace BinaryStyle

/-- The style of an operation of precedence `inner` inside one of precedence `outer`. -/
def choose (inner outer : Nat) (tight right : Bool) : BinaryStyle :=
  let tightened := 0 < outer && outer < inner && inner == BinaryOp.maxPrecedence
  { tight := tight || tightened
    parens := 0 < outer && ((inner != outer && !tightened) || (right && inner == outer)) }

end BinaryStyle

/-- The style of values between parentheses on several lines. -/
def valueStyle (level : Nat) : ListStyle := { level, floor := 1, breaksAlignment := false }

/-- Writes values between parentheses on several lines. -/
def writeDelimited (level : Nat) (entries : List Entry) (page : Page) : Page :=
  let page := (valueStyle level).write entries (page.write ['('])
  ((page.write ['\n']).indent (level - 1 : Nat)).write [')']

mutual
/-- Writes an expression. `outer` is the precedence of the operator around it, zero if there is
none, and `right` tells whether the expression is the right operand of that operator. -/
def writeExpr (level outer : Nat) (tight right : Bool) (page : Page) :
    Node → Except LayoutFault Page
  | .prefixed _ (.unary .identity) operand _ => writeExpr level outer tight right page operand
  | .prefixed _ op operand _ =>
    writeExpr level ultimatePrecedence tight false (op.write page) operand
  | .binary left op operand _ => do
    let inner := op.precedence
    let style := BinaryStyle.choose inner outer tight right
    let page := if style.parens then page.write ['('] else page
    let page ← writeExpr level inner style.tight false page left
    let page := page.write (if style.tight then op.text else ' ' :: op.text ++ [' '])
    let page ← writeExpr level inner style.tight true page operand
    return if style.parens then page.write [')'] else page
  | .boolean _ value _ => .ok (page.write (if value then "true" else "false"))
  | .call name args _ => do
    let page := page.write name.text
    if spansLines name.start.line args then
      return writeDelimited level (← valueEntries level name.start.line true args) page
    return (← writeOneLine true (page.write ['(']) args).write [')']
  | .index name subscript _ => do
    let page ← writeExpr level 0 false false (page.write (name.text ++ ['['])) subscript
    return page.write [']']
  | .literal _ _ source _ => .ok (page.write source)
  | .nil _ _ => .ok (page.write "nil")
  | .selector s => .ok (page.write s.text)
  | .zero _ _ => .ok (page.write "\x7b\x7d")
  | node => .error (.outOfPlace .expression node.kind)

def writeOneLine (first : Bool) (page : Page) : List Node → Except LayoutFault Page
  | [] => .ok page
  | .comment _ _ :: nodes => writeOneLine first page nodes
  | .assignerDereference _ name _ :: nodes =>
    let page := if first then page else page.write ", "
    writeOneLine false (page.write (dereferenceText name)) nodes
  | .expression value :: nodes => do
    let page := if first then page else page.write ", "
    writeOneLine false (← writeExpr 0 0 false false page value) nodes
  | node :: _ => .error (.outOfPlace .expressionList node.kind)

/-- The entries of values on several lines that follow something that stops on `previous`. A comment
that comes first stands alone. -/
def valueEntries (level : Nat) (previous : Int) (first : Bool) :
    List Node → Except LayoutFault (List Entry)
  | [] => .ok []
  | node@(.comment _ source) :: nodes => do
    let text := Text.strip source
    let entries ← valueEntries level node.stop.line false nodes
    return ⟨.before previous node, if first then .alone text else .aligned text⟩ :: entries
  | node@(.assignerDereference _ name _) :: nodes => do
    let entries ← valueEntries level node.stop.line false nodes
    return ⟨.before previous node, .code (dereferenceText name ++ [','])⟩ :: entries
  | node@(.expression value) :: nodes => do
    let page ← writeExpr (level + 1) 0 false false (.indented level) value
    let entries ← valueEntries level node.stop.line false nodes
    return ⟨.before previous node, .code (page.value ++ [','])⟩ :: entries
  | node :: _ => .error (.outOfPlace .expressionList node.kind)
end

/-- Writes an expression, in parentheses if it would start with a brace, which opens a block. -/
def writeGuarded (level : Nat) (page : Page) (node : Node) : Except LayoutFault Page := do
  let text := (← writeExpr level 0 false false page.fork node).value
  return page.write (if text.head? == some '\x7b' then '(' :: text ++ [')'] else text)

/-- Writes a list of values that start on a line. On one line they are put in parentheses if they
would start with one of the characters `guards`. -/
def writeValues (level : Nat) (startLine : Int) (guards : List Char) (page : Page)
    (nodes : List Node) : Except LayoutFault Page := do
  if spansLines startLine nodes then
    return writeDelimited level (← valueEntries level startLine true nodes) page
  let text := (← writeOneLine true page.fork nodes).value
  return page.write (if text.head?.any guards.contains then '(' :: text ++ [')'] else text)

end DpLang
