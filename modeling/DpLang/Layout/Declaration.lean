import DpLang.Layout.Statement

/-!
# Layout of definitions

Constants, functions and types as they stand in a file, each with the end of its last line.
-/

namespace DpLang

/-- The style of parameters, results and fields on lines of their own. -/
def memberStyle : ListStyle := { level := 1, floor := 1, breaksAlignment := false }

/-- The keyword of a public definition. -/
def publicText (isPublic : Bool) : Text := if isPublic then "pub " else []

def writeConstant (isPublic : Bool) (name : Text) (value : Node) (tail : List Node)
    (page : Page) : Except LayoutFault Page := do
  let page := page.write (publicText isPublic ++ name ++ (" = " : Text))
  let page ← writeExpr 1 0 false false page value
  let comment :=
    match tail with
    | .comment _ source :: _ => ' ' :: Text.strip source
    | _ => []
  return page.write (comment ++ ['\n'])

def Node.isBareReturn : Node → Bool
  | .returnValues _ values _ => values.isEmpty
  | _ => false

/-- The statements without the bare returns behind the last statement that is neither one of them
nor a comment. -/
def dropBareReturns (nodes : List Node) : List Node :=
  nodes.foldr
    (fun node rest =>
      if node.isBareReturn && rest.all Node.isComment then rest else node :: rest)
    []

/-- The statements of a function that are written. -/
def functionBody (results body : List Node) : List Node :=
  let body := withoutImports body
  if results.isEmpty then dropBareReturns body else body

/-- A parameter by its name and type. -/
def parameterOf : Node → Except LayoutFault (Text × TypeExpr)
  | .parameter _ name (some type) _ => .ok (name, type.type)
  | .parameter _ name none _ => .error (.untypedParameter name)
  | node => .error (.outOfPlace .parameterList node.kind)

/-- Parameters on one line. A type is written behind the last parameter of those that have it. -/
def parametersText : List (Text × TypeExpr) → List Text
  | [] => []
  | [(name, type)] => [name ++ ' ' :: type.text]
  | (name, type) :: next :: params =>
    (if type = next.2 then name else name ++ ' ' :: type.text) :: parametersText (next :: params)

/-- The entries of parameters that follow something that stops on `previous`. -/
def parameterEntries (previous : Int) (rows : List (Option (List Nat))) :
    List Node → Except LayoutFault (List Entry)
  | [] => .ok []
  | node :: nodes => do
    let item ← show Except LayoutFault Item from
      match node with
      | .comment _ source => .ok (.aligned (Text.strip source))
      | node => do
        let _ ← parameterOf node
        let page ← Columns.write (.indented 1) (Columns.ofParameter node)
          ((rows.head?.getD none).getD [])
        return .code (page.value ++ [','])
    let entries ← parameterEntries node.stop.line rows.tail nodes
    return ⟨.before previous node, item⟩ :: entries

/-- Writes the parameters of a function that starts on a line: on one line if the first one stands
on that line and there are no comments. -/
def writeParameters (startLine : Int) (params : List Node) (page : Page) :
    Except LayoutFault Page := do
  let onOneLine := match params with
    | [] => true
    | first :: _ => first.start.line = startLine && !params.any Node.isComment
  if onOneLine then
    let texts := parametersText (← params.mapM parameterOf)
    return page.write ('(' :: Text.join ", " texts ++ (") " : Text))
  let rows := Columns.widths Columns.ofParameter params
  let entries ← parameterEntries startLine rows params
  return (memberStyle.write entries (page.write ['('])).write "\n) "

def resultText : Node → Except LayoutFault Text
  | .typeSpec spec => .ok spec.type.text
  | node => .error (.outOfPlace .typeList node.kind)

/-- The entries of results that follow something that stops on `previous`. -/
def resultEntries (previous : Int) : List Node → Except LayoutFault (List Entry)
  | [] => .ok []
  | node :: nodes => do
    let item ← show Except LayoutFault Item from
      match node with
      | .comment _ source => .ok (.aligned (Text.strip source))
      | node => return .code ((← resultText node) ++ [','])
    let entries ← resultEntries node.stop.line nodes
    return ⟨.before previous node, item⟩ :: entries

/-- Writes the results of a function whose parameters stop on a line: on one line if there is at
most one or the first one stands on that line, and there are no comments. -/
def writeResults (startLine : Int) (results : List Node) (page : Page) :
    Except LayoutFault Page := do
  if !results.any Node.isComment then
    match results with
    | [] => return page.write "() "
    | [result] => return page.write ((← resultText result) ++ [' '])
    | first :: _ =>
      if first.start.line = startLine then
        let texts ← results.mapM resultText
        return page.write ('(' :: Text.join ", " texts ++ (") " : Text))
  let entries ← resultEntries startLine results
  return (memberStyle.write entries (page.write ['('])).write "\n) "

def receiverText (name : Text) : Option TypeSpec → Text
  | none => []
  | some type =>
    '(' :: (if name.isEmpty then [] else name ++ [' ']) ++ type.type.text ++ (") " : Text)

def writeFunction (head : FunctionHead) (params results body : List Node) (page : Page) :
    Except LayoutFault Page := do
  let page := page.write
    (publicText head.isPublic ++ receiverText head.receiverName head.receiverType ++ head.name)
  let page ← writeParameters head.start.line params page
  let page ← writeResults head.paramsStop.line results page
  let page ← writeBlock 1 head.bodyStart.line page (functionBody results body)
  return page.write ['\n']

/-- The entries of fields that follow something that stops on `previous`. -/
def fieldEntries (previous : Int) (rows : List (Option (List Nat))) :
    List Node → Except LayoutFault (List Entry)
  | [] => .ok []
  | node :: nodes => do
    let item ← show Except LayoutFault Item from
      match node with
      | .comment _ source => .ok (.aligned (Text.strip source))
      | .field _ _ _ _ _ => do
        let page ← Columns.write (.indented 1) (Columns.ofField node)
          ((rows.head?.getD none).getD [])
        return .code page.value
      | node => .error (.outOfPlace .fieldList node.kind)
    let entries ← fieldEntries node.stop.line rows.tail nodes
    return ⟨.before previous node, item⟩ :: entries

/-- Writes a definition of a type that starts on a line. -/
def writeType (startLine : Int) (isPublic : Bool) (name : Text) (fields : List Node)
    (page : Page) : Except LayoutFault Page := do
  let fields := withoutImports fields
  let page := page.write (publicText isPublic ++ name ++ (" \x7b" : Text))
  if fields.isEmpty then
    return page.write "\x7d\n"
  let rows := Columns.widths Columns.ofField fields
  let entries ← fieldEntries startLine rows fields
  return (memberStyle.write entries page).write "\n\x7d\n"

end DpLang
