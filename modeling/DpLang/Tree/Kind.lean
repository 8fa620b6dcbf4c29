import DpLang.Tree.Node

/-!
# Kinds and categories of nodes

A node has one kind. The places where nodes stand have categories, and a category admits some
kinds: a comment may stand in most lists, an operator only in an expression. A tree that the parser
builds from a text always has a layout, other trees may hold nodes where they make no sense.
-/

namespace DpLang

/-- The kinds of nodes. -/
inductive NodeKind where
  | address | assignerDereference | binary | boolean | call | character | clone | index | integer
  | nil | pointerDereference | selector | string | unary | zero
  | expression | assign | block | breakLoop | continueLoop | forLoop | ifElse | returnValues
  | variableDecl | variableDef
  | comment | constantDef | functionDef | field | importNames | importList | parameter | typeDef
  | identifier | typeSpec
  deriving DecidableEq, Repr

namespace NodeKind

/-- All kinds: expressions, statements, then the members of files and other lists. -/
def all : List NodeKind :=
  [address, assignerDereference, binary, boolean, call, character, clone, index, integer, nil,
   pointerDereference, selector, string, unary, zero,
   expression, assign, block, breakLoop, continueLoop, forLoop, ifElse, returnValues,
   variableDecl, variableDef,
   comment, constantDef, functionDef, field, importNames, importList, parameter, typeDef,
   identifier, typeSpec]

def name : NodeKind → Text
  | address => "Address"
  | assignerDereference => "AssignerDereference"
  | binary => "Binary"
  | boolean => "Boolean"
  | call => "Call"
  | character => "Character"
  | clone => "Clone"
  | index => "Index"
  | integer => "Integer"
  | nil => "Nil"
  | pointerDereference => "PointerDereference"
  | selector => "Selector"
  | string => "String"
  | unary => "Unary"
  | zero => "Zero"
  | expression => "Expression"
  | assign => "Assign"
  | block => "Block"
  | breakLoop => "Break"
  | continueLoop => "Continue"
  | forLoop => "For"
  | ifElse => "If"
  | returnValues => "Return"
  | variableDecl => "VariableDecl"
  | variableDef => "VariableDef"
  | comment => "Comment"
  | constantDef => "ConstantDef"
  | functionDef => "FunctionDef"
  | field => "Field"
  | importNames => "Import"
  | importList => "Imports"
  | parameter => "Parameter"
  | typeDef => "TypeDef"
  | identifier => "Identifier"
  | typeSpec => "TypeSpec"

/-- What a kind is called in prose. -/
def description : NodeKind → Text
  | address => "address operation"
  | assignerDereference => "assigner dereference"
  | binary => "binary operation"
  | boolean => "boolean literal"
  | call => "function call"
  | character => "character literal"
  | clone => "clone operation"
  | index => "index operation"
  | integer => "integer literal"
  | nil => "nil literal"
  | pointerDereference => "pointer dereference"
  | selector => "selector operation"
  | string => "string literal"
  | unary => "unary operation"
  | zero => "zero literal"
  | expression => "expression"
  | assign => "assignment"
  | block => "block"
  | breakLoop => "break"
  | continueLoop => "continue"
  | forLoop => "for statement"
  | ifElse => "if statement"
  | returnValues => "return statement"
  | variableDecl => "variable declaration"
  | variableDef => "variable definition"
  | comment => "comment"
  | constantDef => "constant definition"
  | functionDef => "function definition"
  | field => "field"
  | importNames => "import"
  | importList => "import list"
  | parameter => "parameter"
  | typeDef => "type definition"
  | identifier => "identifier"
  | typeSpec => "type specification"

end NodeKind

namespace PrefixOp

/-- The kind of the nodes with an operator. -/
def kind : PrefixOp → NodeKind
  | address => .address
  | clone => .clone
  | dereference => .pointerDereference
  | unary _ => .unary

end PrefixOp

namespace LiteralKind

def kind : LiteralKind → NodeKind
  | integer => .integer
  | character => .character
  | string => .string

end LiteralKind

namespace Jump

def kind : Jump → NodeKind
  | breakLoop => .breakLoop
  | continueLoop => .continueLoop

end Jump

namespace Node

def kind : Node → NodeKind
  | prefixed _ op _ _ => op.kind
  | assignerDereference _ _ _ => .assignerDereference
  | binary _ _ _ _ => .binary
  | boolean _ _ _ => .boolean
  | call _ _ _ => .call
  | index _ _ _ => .index
  | literal _ kind _ _ => kind.kind
  | nil _ _ => .nil
  | selector _ => .selector
  | zero _ _ => .zero
  | expression _ => .expression
  | assign _ _ _ _ => .assign
  | block _ _ _ => .block
  | jump _ kind _ => kind.kind
  | forLoop _ _ _ _ _ => .forLoop
  | ifElse _ _ _ _ _ _ _ => .ifElse
  | returnValues _ _ _ => .returnValues
  | variableDecl _ _ _ _ => .variableDecl
  | variableDef _ _ _ _ => .variableDef
  | comment _ _ => .comment
  | constantDef _ _ _ _ _ => .constantDef
  | functionDef _ _ _ _ => .functionDef
  | field _ _ _ _ _ => .field
  | identifier _ _ _ => .identifier
  | importNames _ _ _ _ => .importNames
  | importList _ _ _ => .importList
  | parameter _ _ _ _ => .parameter
  | typeDef _ _ _ _ _ => .typeDef
  | typeSpec _ => .typeSpec

end Node

/-- The places where nodes stand. -/
inductive Category where
  /-- The left side of an assignment. -/
  | assignList
  | block
  | expression
  | expressionList
  /-- The body of a type definition. -/
  | fieldList
  | file
  /-- The names of an import. -/
  | identifierList
  | importList
  | parameterList
  /-- The results of a function. -/
  | typeList
  deriving DecidableEq, Repr

namespace Category

/-- What a category is called in prose. -/
def name : Category → Text
  | assignList => "assignment list"
  | block => "block"
  | expression => "expression"
  | expressionList => "expression list"
  | fieldList => "field list"
  | file => "file"
  | identifierList => "identifier list"
  | importList => "import list"
  | parameterList => "parameter list"
  | typeList => "type list"

def kinds : Category → List NodeKind
  | assignList => [.assignerDereference, .call, .index, .selector]
  | block =>
    [.assign, .block, .breakLoop, .comment, .continueLoop, .expression, .forLoop, .ifElse,
     .importNames, .returnValues, .variableDecl, .variableDef]
  | expression =>
    [.address, .binary, .boolean, .call, .character, .clone, .index, .integer, .nil,
     .pointerDereference, .selector, .string, .unary, .zero]
  | expressionList => [.assignerDereference, .comment, .expression]
  | fieldList => [.comment, .field, .importNames]
  | file => [.comment, .constantDef, .functionDef, .importNames, .importList, .typeDef]
  | identifierList => [.comment, .identifier]
  | importList => [.comment, .importNames]
  | parameterList => [.comment, .parameter]
  | typeList => [.comment, .typeSpec]

def admits (category : Category) (kind : NodeKind) : Bool := category.kinds.contains kind

def complaint (category : Category) (kind : NodeKind) : Text :=
  ("unknown " : Text) ++ category.name ++ (" node: " : Text) ++ kind.name

end Category

/-- Why a tree has no layout. -/
inductive LayoutFault where
  /-- A node stands where its kind may not. -/
  | outOfPlace (category : Category) (kind : NodeKind)
  | unquotedPath (path : Text)
  | untypedParameter (name : Text)
  /-- A row of aligned columns has more values than widths. -/
  | missingWidth
  deriving DecidableEq, Repr

namespace LayoutFault

def message : LayoutFault → Text
  | outOfPlace category kind => category.complaint kind
  | unquotedPath path => ("import path is not quoted: " : Text) ++ path
  | untypedParameter name => ("parameter has no type: " : Text) ++ name
  | missingWidth => "row has no width for a column"

end LayoutFault

end DpLang
