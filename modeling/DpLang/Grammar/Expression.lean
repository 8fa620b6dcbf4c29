import DpLang.Grammar.Name

/-!
# Expressions

An atomic expression is a literal, a name, a call, an operator in front of an atomic expression, or
any expression in parentheses. An operand is a chain of atomic expressions joined by operators of
the highest precedence. An expression is a chain of operands joined by operators of one precedence.

The parsers below take the parser of atomic expressions as a parameter. `atomicWithin` closes the
circle: an atomic expression inside another one starts behind at least one more token.
-/

namespace DpLang.Parser

def infixOperator? : Parser (Option BinaryOp) := do
  match ← peekKind? with
  | some (.symbol s) =>
    match BinaryOp.ofSymbol? s with
    | some op =>
      let _ ← skip (.symbol s)
      return some op
    | none => return none
  | _ => return none

/-- Passes line ends where an expression may run over several lines. -/
def skipNewlinesIf (multiline : Bool) : Parser Unit := do
  if multiline then
    skipNewlines

/-- The operator of the highest precedence at the cursor. Nothing is taken if there is none. -/
def tightOperator? (multiline : Bool) : Parser (Option BinaryOp) := do
  let before ← get
  skipNewlinesIf multiline
  match ← infixOperator? with
  | some op =>
    if op.precedence = BinaryOp.maxPrecedence then
      return some op
    set before
    return none
  | none =>
    set before
    return none

/-- Joins `left` with the atomic expressions behind it. -/
def operandAfter (atomic : Parser Node) (multiline : Bool) (left : Node) : Nat → Parser Node
  | 0 => stall
  | fuel + 1 => do
    match ← tightOperator? multiline with
    | none => return left
    | some op =>
      skipNewlinesIf multiline
      let right ← atomic
      operandAfter atomic multiline (.binary left op right (← lastStop)) fuel

/-- A chain of atomic expressions joined by operators of the highest precedence. -/
def operandOf (atomic : Parser Node) (multiline : Bool) : Parser Node := do
  let first ← atomic
  bounded (operandAfter atomic multiline first)

/-- Joins the operands from the cursor on to `before`, the operands up to here and the operator
behind them. -/
def chainAfter (operand : Parser Node) (multiline : Bool) :
    Nat → Option (Node × BinaryOp) → Parser Node
  | 0, _ => stall
  | fuel + 1, before => do
    skipNewlinesIf multiline
    let right ← operand
    let stop ← lastStop
    let left :=
      match before with
      | none => right
      | some (left, op) => .binary left op right stop
    skipNewlinesIf multiline
    match ← infixOperator? with
    | none => return left
    | some op =>
      if before.any fun (_, previous) => op.precedence ≠ previous.precedence then
        reject (← here) .mixedPrecedence
      chainAfter operand multiline fuel (some (left, op))

/-- A chain of operands joined by operators of one precedence. -/
def expressionOf (atomic : Parser Node) (multiline : Bool) : Parser Node :=
  bounded fun fuel => chainAfter (operandOf atomic multiline) multiline fuel none

/-- A name in parentheses. Nothing is taken if there is none. -/
def assignerDereference? : Parser (Option Node) := do
  let before ← get
  let start := before.position
  if ← skip (.symbol .parenLeft) then
    if let some name ← skim .word then
      if ← skip (.symbol .parenRight) then
        return some (.assignerDereference start name.text (← lastStop))
  set before
  return none

/-- Can a token of this kind follow an expression in a list of values? -/
def endsListValue : Option TokenKind → Bool
  | none => false
  | some kind =>
    [.symbol .braceRight, .comment, .newline, .symbol .parenRight, .symbol .semicolon].contains
      kind

/-- A member of a list of values, with the comma behind it. -/
def listValueOf (atomic : Parser Node) : Parser Node := do
  if let some node ← assignerDereference? then
    return node
  let value ← expressionOf atomic false
  if !(← skip (.symbol .comma)) then
    if !endsListValue (← peekKind?) then
      reject (← here) (.unexpectedToken "end of expression expected")
  return .expression value

/-- A call whose arguments, with the closing parenthesis, are read by `arguments`. -/
def callWith (arguments : Parser (List Node)) : Parser Node := do
  let name ← selectorOnly
  let _ ← take (.symbol .parenLeft) "call: opening paren expected"
  let args ← arguments
  return .call name args (← lastStop)

/-- The arguments of a call in an expression. -/
def argumentsOf (atomic : Parser Node) : Parser (List Node) :=
  membersUntil .parenRight [comma, member comment, member (listValueOf atomic), newline]

def callOf (atomic : Parser Node) : Parser Node := callWith (argumentsOf atomic)

/-- The arguments of a call on the left side of an assignment, where comments may not stand. -/
def targetArgumentsOf (atomic : Parser Node) : Parser (List Node) :=
  membersUntil .parenRight [comma, member (listValueOf atomic), newline]

/-- A call on the left side of an assignment. -/
def targetCallOf (atomic : Parser Node) : Parser Node := callWith (targetArgumentsOf atomic)

/-- An element of an array. -/
def indexOf (atomic : Parser Node) : Parser Node := do
  let name ← selectorOnly
  let _ ← take (.symbol .bracketLeft) "index: opening bracket expected"
  let subscript ← expressionOf atomic true
  let _ ← take (.symbol .bracketRight) "index: closing bracket expected"
  return .index name subscript (← lastStop)

/-- An operator that is a token of its own kind, and its operand. -/
def prefixedOf (atomic : Parser Node) (kind : TokenKind) (op : PrefixOp) (message : Text) :
    Parser Node := do
  let token ← take kind message
  let operand ← atomic
  return .prefixed token.start op operand (← lastStop)

/-- An operator of arithmetic or logic and its operand. -/
def unaryOf (atomic : Parser Node) : Parser Node := do
  let start ← here
  let op? :=
    match ← peekKind? with
    | some (.symbol s) => UnaryOp.ofSymbol? s
    | _ => none
  match op? with
  | none => reject start (.unexpectedToken "prefix operator expected")
  | some op =>
    let _ ← skip (.symbol op.symbol)
    let operand ← atomic
    return .prefixed start (.unary op) operand (← lastStop)

/-- A literal that keeps its source text. -/
def literal (kind : TokenKind) (literalKind : LiteralKind) (message : Text) : Parser Node := do
  let token ← take kind message
  return .literal token.start literalKind token.text (← lastStop)

/-- A truth value. -/
def boolean (keyword : Keyword) (value : Bool) (message : Text) : Parser Node := do
  let token ← take (.keyword keyword) message
  return .boolean token.start value (← lastStop)

def nil : Parser Node := do
  let token ← take (.keyword .nilKw) "literal nil expected"
  return .nil token.start (← lastStop)

/-- The literal that is a pair of braces. -/
def zero : Parser Node := do
  let token ← take (.symbol .braceLeft) "zero: opening brace expected"
  let _ ← take (.symbol .braceRight) "zero: closing brace expected"
  return .zero token.start (← lastStop)

/-- An expression in parentheses, which leave no trace in the tree. -/
def parenthesizedOf (atomic : Parser Node) : Parser Node := do
  let _ ← take (.symbol .parenLeft) "expression: opening paren expected"
  let value ← expressionOf atomic true
  let _ ← take (.symbol .parenRight) "expression: closing paren expected"
  return value

/-- An atomic expression whose own atomic expressions are read by `atomic`. -/
def atomicOf (atomic : Parser Node) : Parser Node :=
  firstOf [
    prefixedOf atomic (.symbol .ampersand) .address "address operator expected",
    callOf atomic,
    literal .character .character "character literal expected",
    prefixedOf atomic (.keyword .cloneKw) .clone "clone keyword expected",
    boolean .falseKw false "literal false expected",
    indexOf atomic,
    literal .integer .integer "integer literal expected",
    nil,
    parenthesizedOf atomic,
    prefixedOf atomic (.symbol .asterisk) .dereference "pointer dereference operator expected",
    selector,
    literal .string .string "string literal expected",
    boolean .trueKw true "literal true expected",
    unaryOf atomic,
    zero]

/-- An atomic expression that is nested less than `fuel` deep. -/
def atomicWithin : Nat → Parser Node
  | 0 => stall
  | fuel + 1 => atomicOf (atomicWithin fuel)

def atomic : Parser Node := bounded atomicWithin

/-- An operand, over several lines if asked for. -/
def operand (multiline : Bool) : Parser Node := operandOf atomic multiline

/-- An expression, over several lines if asked for. -/
def expression (multiline : Bool) : Parser Node := expressionOf atomic multiline

def listValue : Parser Node := listValueOf atomic

end DpLang.Parser
