import DpLang.Grammar.Statement

/-!
# Files and what stands in them

Definitions of constants, functions and types, and import lists. `parse` reads a whole file.
-/

namespace DpLang

namespace Parser

/-- The start of a definition of `what`: a name, or `pub` and a name. The result is the first
token, whether the definition is public, and the name. -/
def definedName (what : Text) : Parser (Token × Bool × Text) := do
  let token ← take .word (what ++ (": pub keyword or name expected" : Text))
  if token.text = ("pub" : Text) then
    let name ← take .word (what ++ (": name expected" : Text))
    return (token, true, name.text)
  return (token, false, token.text)

def constantDef : Parser Node := do
  let (token, isPublic, name) ← definedName "constant definition"
  let _ ← take (.symbol .assign) "constant definition: assignment operator expected"
  let value ← expression false
  return .constantDef token.start isPublic name value (← lastStop)

/-- A parameter, with the comma behind it. A comma in place of the type leaves the type open. -/
def parameter : Parser Node := do
  let name ← take .word "parameter name expected"
  if ← skip (.symbol .comma) then
    return .parameter name.start name.text none (← lastStop)
  let type ← typeSpec
  let _ ← skip (.symbol .comma)
  return .parameter name.start name.text (some type) (← lastStop)

/-- The parameters with the types filled in that were left open: each takes the type of the next
parameter to its right. The result also has the type of the first parameter. -/
def filledTypes : List Node → Except Report (List Node × Option TypeSpec)
  | [] => .ok ([], none)
  | node :: nodes => do
    let (filled, next) ← filledTypes nodes
    match node with
    | .parameter _ _ (some type) _ => return (node :: filled, some type)
    | .parameter start name none stop =>
      match next with
      | some type => return (.parameter start name (some type) stop :: filled, some type)
      | none => throw (.ofFault stop .missingParameterType)
    | _ => return (node :: filled, next)

/-- The parameters with the types filled in that were left open. -/
def fillTypes (params : List Node) : Except Report (List Node) := return (← filledTypes params).1

/-- The results of a function without parentheses. -/
def nakedResults : Parser (List Node) := nakedMembers [comma, member (.typeSpec <$> typeSpec)] []

def resultsUntilParen : Parser (List Node) :=
  membersUntil .parenRight [comma, member comment, newline, member (.typeSpec <$> typeSpec)]

/-- The results of a function in parentheses. -/
def delimitedResults : Parser (List Node) := do
  let _ ← take (.symbol .parenLeft) "function definition: return type list expected"
  resultsUntilParen

/-- The keyword `pub`, if the next token is that word. -/
def publicKeyword : Parser Bool := do
  match ← peek? with
  | some token =>
    if token.kind = .word && token.text = ("pub" : Text) then
      skip .word
    else
      return false
  | none => return false

/-- The receiver and the name of a function. The name may be missing behind a receiver. -/
def functionName : Parser (Text × Option TypeSpec × Text) := do
  if ← skip (.symbol .parenLeft) then
    let receiver ← take .word "function definition: receiver name expected"
    let type ← typeSpec
    let _ ← take (.symbol .parenRight) "function definition: receiver: closing paren expected"
    let name ← skim .word
    return (receiver.text, some type, (name.map Token.text).getD [])
  let name ← take .word "function definition: name expected"
  return ([], none, name.text)

/-- The parameters of a function up to a closing parenthesis. -/
def parameters : Parser (List Node) :=
  membersUntil .parenRight [comma, member comment, newline, member parameter]

def functionDef : Parser Node := do
  let start ← here
  let isPublic ← publicKeyword
  let (receiverName, receiverType, name) ← functionName
  let _ ← take (.symbol .parenLeft) "function definition: parameter list expected"
  let params ← parameters
  let paramsStop ← lastStop
  match fillTypes params with
  | .error report => throw (.rejected report)
  | .ok params =>
    let results ← firstOf [nakedResults, delimitedResults]
    let opening ← take (.symbol .braceLeft) "function definition: opening brace expected"
    let body ← statements
    let stop ← lastStop
    let bodyStart := opening.start
    return .functionDef
      { start, isPublic, receiverName, receiverType, name, paramsStop, bodyStart, stop }
      params results body

/-- The access mode behind a field or in front of the fields of a type. -/
def fieldAccess : Parser FieldAccess := do
  match ← skim .word with
  | none => return .hidden
  | some token =>
    match FieldAccess.ofWord? token.text with
    | some access => return access
    | none => reject token.start .unknownAccess

def field : Parser Node := do
  let name ← take .word "field name expected"
  let type ← typeSpec
  let access ← fieldAccess
  return .field name.start name.text type access (← lastStop)

/-- Gives a field the access mode of its type if it has none of its own. -/
def withAccess (access : FieldAccess) : Node → Node
  | .field start name type .hidden stop => .field start name type access stop
  | node => node

/-- What stands in a type up to its closing brace. -/
def fields : Parser (List Node) :=
  membersUntil .braceRight
    [comma, member comment, member field, member importWithKeyword, newline, semicolon]

def typeDef : Parser Node := do
  let (token, isPublic, name) ← definedName "type definition"
  let access ← fieldAccess
  let _ ← take (.symbol .braceLeft) "type definition: opening brace expected"
  let fields ← fields
  return .typeDef token.start isPublic name (fields.map (withAccess access)) (← lastStop)

def pathImport : Parser Node := do
  let token ← take .string "import path expected"
  if token.text.head? ≠ some '"' then
    reject token.start .unquotedImport
  return .importNames token.start token.text [] (← lastStop)

/-- The paths of an import list without parentheses. -/
def nakedPaths : Parser (List Node) := nakedMembers [comma, member pathImport] []

/-- The paths of an import list up to a closing parenthesis. -/
def pathsUntilParen : Parser (List Node) :=
  membersUntil .parenRight [comma, member comment, member pathImport, newline]

/-- The paths and names of an import list up to a closing brace. -/
def importEntries : Parser (List Node) :=
  membersUntil .braceRight [comma, member comment, member importEntry, newline, semicolon]

/-- The members of an import list: paths without parentheses, paths in parentheses, or paths and
names in braces. -/
def importMembers : Parser (List Node) := do
  if (← peekKind?) = some .string then
    nakedPaths
  else if ← skip (.symbol .parenLeft) then
    pathsUntilParen
  else
    let _ ← take (.symbol .braceLeft) "import: opening brace expected"
    importEntries

def importList : Parser Node := do
  let keyword ← take (.keyword .importKw) "import keyword expected"
  let imports ← importMembers
  return .importList keyword.start imports (← lastStop)

/-- Is the cursor at the end of the tokens? -/
def atEnd : Parser Bool := return (← peek?).isNone

def file : Parser (List Node) :=
  members atEnd [
    member comment,
    member constantDef,
    member functionDef,
    member importList,
    newline,
    semicolon,
    member typeDef]

end Parser

/-- The nodes of a file with the given tokens. -/
def parse (tokens : List Token) : Except Failure (List Node) :=
  (Parser.file.run (.ofTokens tokens)).map Prod.fst

end DpLang
