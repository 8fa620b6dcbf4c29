import DpLang.Grammar.Parser

/-!
# Names and types

Qualified names, identifiers, selectors and types.
-/

namespace DpLang.Parser

/-- The parts of a qualified name from its first word on. -/
def nameParts : Nat → Parser (List Text)
  | 0 => stall
  | fuel + 1 => do
    let word ← take .word "name expected"
    if ← skip (.symbol .colons) then
      return word.text :: (← nameParts fuel)
    return [word.text]

/-- A qualified name. It has an empty first part if it starts with `::`. -/
def qualifiedName : Parser QualifiedName := do
  let rooted ← skip (.symbol .colons)
  let parts ← bounded nameParts
  return if rooted then [] :: parts else parts

/-- A name in an import. -/
def identifier : Parser Node := do
  let start ← here
  let name ← qualifiedName
  return .identifier start name (← lastStop)

/-- The names behind the first one of a selector. -/
def fieldNames : Nat → Parser (List Text)
  | 0 => stall
  | fuel + 1 => do
    if ← skip (.symbol .period) then
      let word ← take .word "selector: field name expected"
      return word.text :: (← fieldNames fuel)
    return []

/-- A variable or a field of one, whatever follows. -/
def selectorOnly : Parser Selector := do
  let start ← here
  let word ← take .word "selector: variable name expected"
  let names ← bounded fieldNames
  return ⟨start, word.text :: names, ← lastStop⟩

/-- A variable or a field of one that is not the start of something longer. -/
def selector : Parser Node := do
  let name ← selectorOnly
  match ← peekKind? with
  | some (.symbol .colons) =>
    reject (← here) (.unexpectedToken "selector: looks like namespace")
  | some (.symbol .parenLeft) =>
    reject (← here) (.unexpectedToken "selector used in function call")
  | some (.symbol .bracketLeft) =>
    reject (← here) (.unexpectedToken "selector: looks like index expression")
  | _ => return .selector name

def typeFlags : Parser TypeFlags := do
  let assigner ← skip (.symbol .assign)
  let pointer ← skip (.symbol .asterisk)
  let reference ← skip (.symbol .ampersand)
  let shared ← skip (.symbol .hash)
  return { assigner, pointer, reference, shared }

/-- A type that is nested less than `fuel` deep. -/
def typeWithin : Nat → Parser TypeExpr
  | 0 => stall
  | fuel + 1 => do
    let flags ← typeFlags
    if ← skip (.symbol .bracketLeft) then
      let item ← typeWithin fuel
      let _ ← take (.symbol .bracketRight) "type: array closing bracket expected"
      return .array flags item
    return .named flags (← qualifiedName)

def type : Parser TypeExpr := bounded typeWithin

def typeSpec : Parser TypeSpec := do
  let start ← here
  let type ← type
  return ⟨start, type, ← lastStop⟩

end DpLang.Parser
