import DpLang.Grammar.Expression

/-!
# Imports and statements

Imports may stand in a file, in a type and in a block. The parsers of statements that hold blocks
take the parser of a block's statements as a parameter, and `statementsWithin` closes the circle.
-/

namespace DpLang.Parser

/-- The names of an import without parentheses. -/
def nakedNames : Parser (List Node) := nakedMembers [comma, member identifier] []

def namesUntilParen : Parser (List Node) :=
  membersUntil .parenRight [comma, member comment, member identifier, newline]

def importedNames : Parser (List Node) := do
  if ← skip (.symbol .parenLeft) then
    namesUntilParen
  else
    nakedNames

/-- The path of an import, if there is one. It stands in double quotes. -/
def importedPath : Parser Text := do
  match ← skim .string with
  | none => return []
  | some token =>
    if token.text.head? ≠ some '"' then
      reject token.start .unquotedImport
    return token.text

def importWithKeyword : Parser Node := do
  let start ← here
  if !(← skip (.keyword .importKw)) then
    reject start (.unexpectedToken "import keyword expected")
  let path ← importedPath
  let names ← importedNames
  return .importNames start path names (← lastStop)

/-- A member of an import list: a path, names, or both. -/
def importEntry : Parser Node := do
  let start ← here
  let _ ← skip (.keyword .importKw)
  let path ← importedPath
  let names ← importedNames
  if path.isEmpty && names.isEmpty then
    reject (← here) .emptyImport
  return .importNames start path names (← lastStop)

/-- Can a token of this kind follow an expression that is a statement? -/
def endsStatement : Option TokenKind → Bool
  | none => false
  | some kind => [.comment, .newline, .symbol .semicolon].contains kind

/-- Can a token of this kind, or the end of the tokens, follow values in parentheses? -/
def endsValues (kind : Option TokenKind) : Bool :=
  kind.isNone || endsStatement kind || kind == some (.symbol .braceRight)

/-- A list of values without parentheses. -/
def nakedValues : Parser (List Node) := nakedMembers [comma, member listValue] []

def valuesUntilParen : Parser (List Node) :=
  membersUntil .parenRight [comma, member comment, member listValue, newline]

/-- The rest of a list of values behind its opening parenthesis. -/
def delimitedValues : Parser (List Node) := do
  let values ← valuesUntilParen
  if !endsValues (← peekKind?) then
    reject (← here) (.unexpectedToken "value list: end of statement expected")
  return values

/-- A list of values, in parentheses if it starts with one. -/
def values : Parser (List Node) := do
  if ← skip (.symbol .parenLeft) then
    delimitedValues
  else
    nakedValues

/-- A name in parentheses on the left side of an assignment. -/
def assignerDereference : Parser Node := do
  match ← assignerDereference? with
  | some node => return node
  | none => reject (← here) (.unexpectedToken "assigner dereference expected")

/-- The left side of an assignment. -/
def targets : Parser (List Node) :=
  nakedMembers
    [member assignerDereference, member (targetCallOf atomic), comma, member (indexOf atomic),
      member selector]
    [.symbol .assign]

def assign : Parser Node := do
  let targets ← targets
  match targets with
  | [] => reject (← here) (.emptyList "assign")
  | first :: _ =>
    let _ ← take (.symbol .assign) "assign: operator expected"
    let values ← values
    if values.isEmpty then
      reject (← here) (.emptyList "assign")
    return .assign first.start targets values (← lastStop)

/-- A jump out of or to the next round of a loop. -/
def jump (keyword : Keyword) (kind : Jump) (message : Text) : Parser Node := do
  let token ← take (.keyword keyword) message
  return .jump token.start kind (← lastStop)

def breakLoop : Parser Node := jump .breakKw .breakLoop "break keyword expected"

def continueLoop : Parser Node := jump .continueKw .continueLoop "continue keyword expected"

def expressionStatement : Parser Node := do
  let value ← expression false
  if !endsStatement (← peekKind?) then
    reject (← here) (.unexpectedToken "expression: end of statement expected")
  return .expression value

def returnValues : Parser Node := do
  let keyword ← take (.keyword .returnKw) "return keyword expected"
  let values ← firstOf [
    nakedValues,
    do
      let _ ← take (.symbol .parenLeft) "return value list expected"
      delimitedValues]
  return .returnValues keyword.start values (← lastStop)

/-- The names in front of a declaration or definition. -/
def variableNames : Parser (List Text) :=
  nakedMembers [comma, member (return (← take .word "variable name expected").text)] []

def variableDecl : Parser Node := do
  let start ← here
  let names ← variableNames
  let _ ← take (.symbol .colon) "variable declaration: colon expected"
  if ← skip (.keyword .autoKw) then
    return .variableDecl start names none (← lastStop)
  let type ← typeSpec
  return .variableDecl start names (some type) (← lastStop)

/-- A definition of variables by their values. -/
def variableDef : Parser Node := do
  let start ← here
  let names ← variableNames
  let _ ← take (.symbol .define) "variable definition: operator expected"
  let values ← values
  return .variableDef start names values (← lastStop)

def blockOf (statements : Parser (List Node)) : Parser Node := do
  let opening ← take (.symbol .braceLeft) "block: opening brace expected"
  let body ← statements
  return .block opening.start body (← lastStop)

def forLoopOf (statements : Parser (List Node)) : Parser Node := do
  let keyword ← take (.keyword .forKw) "for keyword expected"
  match ← skim (.symbol .braceLeft) with
  | some opening =>
    let body ← statements
    return .forLoop keyword.start none opening.start body (← lastStop)
  | none =>
    let test ← expression false
    let opening ← take (.symbol .braceLeft) "for: opening brace expected"
    let body ← statements
    return .forLoop keyword.start (some test) opening.start body (← lastStop)

/-- A choice between two blocks. -/
def ifElseOf (statements : Parser (List Node)) : Parser Node := do
  let keyword ← take (.keyword .ifKw) "if keyword expected"
  let test ← expression false
  let opening ← take (.symbol .braceLeft) "if: opening brace expected"
  let thenBody ← statements
  let thenStop ← lastStop
  if ← skip (.keyword .elseKw) then
    let _ ← take (.symbol .braceLeft) "else: opening brace expected"
    let elseBody ← statements
    return .ifElse keyword.start test opening.start thenBody thenStop elseBody (← lastStop)
  return .ifElse keyword.start test opening.start thenBody thenStop [] (← lastStop)

/-- The statements of a block behind its opening brace, with the closing one. The statements of
the blocks inside are read by `statements`. -/
def statementsOf (statements : Parser (List Node)) : Parser (List Node) :=
  membersUntil .braceRight [
    member assign,
    member (blockOf statements),
    member breakLoop,
    member comment,
    member continueLoop,
    member expressionStatement,
    member (forLoopOf statements),
    member (ifElseOf statements),
    member importWithKeyword,
    newline,
    member returnValues,
    semicolon,
    member variableDecl,
    member variableDef]

/-- The statements of a block that is nested less than `fuel` deep. -/
def statementsWithin : Nat → Parser (List Node)
  | 0 => stall
  | fuel + 1 => statementsOf (statementsWithin fuel)

/-- The statements of a block behind its opening brace, with the closing one. -/
def statements : Parser (List Node) := bounded statementsWithin

def block : Parser Node := blockOf statements

def forLoop : Parser Node := forLoopOf statements

/-- A choice between two blocks. -/
def ifElse : Parser Node := ifElseOf statements

end DpLang.Parser
