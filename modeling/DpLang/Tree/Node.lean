import DpLang.Tree.Operator

/-!
# Syntax trees

A parsed file is a list of nodes. Comments are nodes of the list in which they stand. A node knows
where it starts and where it stops: at the first token behind it that is not blank, or behind its
own last token at the end of the text.

Every list of a node holds nodes of any sort; which of them make sense there is a matter of
categories.
-/

namespace DpLang

/-- A name with the namespaces in front of it, written `a::b::c`. -/
abbrev QualifiedName := List Text

namespace QualifiedName

def text (name : QualifiedName) : Text := Text.join "::" name

/-- All but the last part. -/
def namespaceText (name : QualifiedName) : Text := Text.join "::" name.dropLast

/-- The last part. -/
def short (name : QualifiedName) : Text := name.getLast?.getD []

end QualifiedName

structure TypeFlags where
  assigner : Bool := false
  pointer : Bool := false
  reference : Bool := false
  shared : Bool := false
  deriving DecidableEq, Repr, Inhabited

namespace TypeFlags

/-- The marks as they are written, in their fixed order. -/
def text (flags : TypeFlags) : Text :=
  (if flags.assigner then ['='] else []) ++ (if flags.pointer then ['*'] else []) ++
    (if flags.reference then ['&'] else []) ++ (if flags.shared then ['#'] else [])

end TypeFlags

/-- Types: flags, then a name or the type of the items of an array. -/
inductive TypeExpr where
  | named (flags : TypeFlags) (name : QualifiedName)
  | array (flags : TypeFlags) (item : TypeExpr)
  deriving DecidableEq, Repr, Inhabited

namespace TypeExpr

def text : TypeExpr → Text
  | named flags name => flags.text ++ name.text
  | array flags item => flags.text ++ '[' :: item.text ++ [']']

end TypeExpr

structure TypeSpec where
  start : Position
  type : TypeExpr
  stop : Position
  deriving DecidableEq, Repr, Inhabited

/-- A variable, or a field of one, written `a.b.c`. -/
structure Selector where
  start : Position
  names : List Text
  stop : Position
  deriving DecidableEq, Repr, Inhabited

namespace Selector

def text (s : Selector) : Text := Text.join ['.'] s.names

end Selector

/-- What a function definition holds besides its lists. -/
structure FunctionHead where
  start : Position
  isPublic : Bool
  receiverName : Text
  receiverType : Option TypeSpec
  name : Text
  paramsStop : Position
  bodyStart : Position
  stop : Position
  deriving DecidableEq, Repr, Inhabited

/-- Literals that keep their source text. -/
inductive LiteralKind where
  | integer | character | string
  deriving DecidableEq, Repr

/-- Statements that end a round of a loop. -/
inductive Jump where
  | breakLoop | continueLoop
  deriving DecidableEq, Repr

/-- The nodes of a syntax tree. -/
inductive Node where
  | prefixed (start : Position) (op : PrefixOp) (operand : Node) (stop : Position)
  /-- A name in parentheses, which stands for the value kept for it. -/
  | assignerDereference (start : Position) (name : Text) (stop : Position)
  | binary (left : Node) (op : BinaryOp) (right : Node) (stop : Position)
  | boolean (start : Position) (value : Bool) (stop : Position)
  | call (name : Selector) (args : List Node) (stop : Position)
  | index (name : Selector) (subscript : Node) (stop : Position)
  | literal (start : Position) (kind : LiteralKind) (source : Text) (stop : Position)
  | nil (start : Position) (stop : Position)
  | selector (selector : Selector)
  | zero (start : Position) (stop : Position)
  /-- An expression as a statement or as a member of a list of values. -/
  | expression (value : Node)
  | assign (start : Position) (targets : List Node) (values : List Node) (stop : Position)
  | block (start : Position) (body : List Node) (stop : Position)
  | jump (start : Position) (kind : Jump) (stop : Position)
  /-- A loop, endless if it has no test. -/
  | forLoop (start : Position) (test : Option Node) (bodyStart : Position) (body : List Node)
      (stop : Position)
  | ifElse (start : Position) (test : Node) (thenStart : Position) (thenBody : List Node)
      (thenStop : Position) (elseBody : List Node) (stop : Position)
  | returnValues (start : Position) (values : List Node) (stop : Position)
  /-- A declaration, with the type `auto` if it has none. -/
  | variableDecl (start : Position) (names : List Text) (type : Option TypeSpec) (stop : Position)
  | variableDef (start : Position) (names : List Text) (values : List Node) (stop : Position)
  | comment (start : Position) (source : Text)
  | constantDef (start : Position) (isPublic : Bool) (name : Text) (value : Node)
      (stop : Position)
  | functionDef (head : FunctionHead) (params : List Node) (results : List Node)
      (body : List Node)
  | field (start : Position) (name : Text) (type : TypeSpec) (access : FieldAccess)
      (stop : Position)
  | identifier (start : Position) (name : QualifiedName) (stop : Position)
  /-- An import of names from a path. The path keeps its quotes and is empty if there is none. -/
  | importNames (start : Position) (path : Text) (names : List Node) (stop : Position)
  | importList (start : Position) (imports : List Node) (stop : Position)
  /-- A parameter, which may take its type from a later one. -/
  | parameter (start : Position) (name : Text) (type : Option TypeSpec) (stop : Position)
  | typeDef (start : Position) (isPublic : Bool) (name : Text) (fields : List Node)
      (stop : Position)
  | typeSpec (spec : TypeSpec)
  deriving Repr, Inhabited

namespace Node

def start : Node → Position
  | prefixed start _ _ _ => start
  | assignerDereference start _ _ => start
  | binary left _ _ _ => left.start
  | boolean start _ _ => start
  | call name _ _ => name.start
  | index name _ _ => name.start
  | literal start _ _ _ => start
  | nil start _ => start
  | selector s => s.start
  | zero start _ => start
  | expression value => value.start
  | assign start _ _ _ => start
  | block start _ _ => start
  | jump start _ _ => start
  | forLoop start _ _ _ _ => start
  | ifElse start _ _ _ _ _ _ => start
  | returnValues start _ _ => start
  | variableDecl start _ _ _ => start
  | variableDef start _ _ _ => start
  | comment start _ => start
  | constantDef start _ _ _ _ => start
  | functionDef head _ _ _ => head.start
  | field start _ _ _ _ => start
  | identifier start _ _ => start
  | importNames start _ _ _ => start
  | importList start _ _ => start
  | parameter start _ _ _ => start
  | typeDef start _ _ _ _ => start
  | typeSpec spec => spec.start

def stop : Node → Position
  | prefixed _ _ _ stop => stop
  | assignerDereference _ _ stop => stop
  | binary _ _ _ stop => stop
  | boolean _ _ stop => stop
  | call _ _ stop => stop
  | index _ _ stop => stop
  | literal _ _ _ stop => stop
  | nil _ stop => stop
  | selector s => s.stop
  | zero _ stop => stop
  | expression value => value.stop
  | assign _ _ _ stop => stop
  | block _ _ stop => stop
  | jump _ _ stop => stop
  | forLoop _ _ _ _ stop => stop
  | ifElse _ _ _ _ _ _ stop => stop
  | returnValues _ _ stop => stop
  | variableDecl _ _ _ stop => stop
  | variableDef _ _ _ stop => stop
  | comment start source => start.after source
  | constantDef _ _ _ _ stop => stop
  | functionDef head _ _ _ => head.stop
  | field _ _ _ _ stop => stop
  | identifier _ _ stop => stop
  | importNames _ _ _ stop => stop
  | importList _ _ stop => stop
  | parameter _ _ _ stop => stop
  | typeDef _ _ _ _ stop => stop
  | typeSpec spec => spec.stop

def isComment : Node → Bool
  | comment _ _ => true
  | _ => false

def isImport : Node → Bool
  | importNames _ _ _ _ => true
  | _ => false

/-- The nodes directly below a node, in the order in which they are written. -/
def children : Node → List Node
  | prefixed _ _ operand _ => [operand]
  | binary left _ right _ => [left, right]
  | call name args _ => selector name :: args
  | index name subscript _ => [selector name, subscript]
  | expression value => [value]
  | assign _ targets values _ => targets ++ values
  | block _ body _ => body
  | forLoop _ test _ body _ => test.toList ++ body
  | ifElse _ test _ thenBody _ elseBody _ => test :: thenBody ++ elseBody
  | returnValues _ values _ => values
  | variableDecl _ _ type _ => type.toList.map typeSpec
  | variableDef _ _ values _ => values
  | constantDef _ _ _ value _ => [value]
  | functionDef head params results body =>
    head.receiverType.toList.map typeSpec ++ params ++ results ++ body
  | field _ _ type _ _ => [typeSpec type]
  | importNames _ _ names _ => names
  | importList _ imports _ => imports
  | parameter _ _ type _ => type.toList.map typeSpec
  | typeDef _ _ _ fields _ => fields
  | _ => []

mutual
/-- A node and all nodes below it, each before the nodes below it. -/
def walk : Node → List Node
  | n@(prefixed _ _ operand _) => n :: operand.walk
  | n@(binary left _ right _) => n :: left.walk ++ right.walk
  | n@(call name args _) => n :: selector name :: walkAll args
  | n@(index name subscript _) => n :: selector name :: subscript.walk
  | n@(expression value) => n :: value.walk
  | n@(assign _ targets values _) => n :: walkAll targets ++ walkAll values
  | n@(block _ body _) => n :: walkAll body
  | n@(forLoop _ none _ body _) => n :: walkAll body
  | n@(forLoop _ (some test) _ body _) => n :: test.walk ++ walkAll body
  | n@(ifElse _ test _ thenBody _ elseBody _) =>
    n :: test.walk ++ walkAll thenBody ++ walkAll elseBody
  | n@(returnValues _ values _) => n :: walkAll values
  | n@(variableDecl _ _ type _) => n :: type.toList.map typeSpec
  | n@(variableDef _ _ values _) => n :: walkAll values
  | n@(constantDef _ _ _ value _) => n :: value.walk
  | n@(functionDef head params results body) =>
    n :: head.receiverType.toList.map typeSpec ++ walkAll params ++ walkAll results ++
      walkAll body
  | n@(field _ _ type _ _) => [n, typeSpec type]
  | n@(importNames _ _ names _) => n :: walkAll names
  | n@(importList _ imports _) => n :: walkAll imports
  | n@(parameter _ _ type _) => n :: type.toList.map typeSpec
  | n@(typeDef _ _ _ fields _) => n :: walkAll fields
  | n => [n]

/-- The nodes of several trees, one tree after the other. -/
def walkAll : List Node → List Node
  | [] => []
  | n :: ns => n.walk ++ walkAll ns
end

end Node

end DpLang
