import DpLang.Tree.Kind

/-!
# Dumps of syntax trees

A dump shows the structure of a tree on one line, without positions and comments.
-/

namespace DpLang

namespace Text

/-- `content` in braces behind `name`. -/
def braced (name content : Text) : Text := name ++ '\x7b' :: content ++ ['\x7d']

end Text

namespace BinaryOp

def dump (op : BinaryOp) : Text := Text.braced "BinaryOp" op.text

end BinaryOp

namespace UnaryOp

def dump (op : UnaryOp) : Text := Text.braced "UnaryOp" op.text

end UnaryOp

namespace Selector

def dump (s : Selector) : Text := Text.braced "Selector" s.text

end Selector

namespace Node

/-- The dump of a statement list, from the dumps of its statements. -/
def dumpBlock (statements : List Text) : Text := Text.braced "Block" (Text.join "; " statements)

/-- The name of a definition, with its visibility. -/
def dumpName (isPublic : Bool) (name : Text) : Text :=
  if isPublic then ("pub " : Text) ++ name else name

def identifierText : Node → Text
  | identifier _ name _ => name.text
  | _ => []

def importText : Node → Text
  | importNames _ path names _ =>
    let names := (names.filter (!·.isComment)).map identifierText
    if names.isEmpty then path else path ++ (" (" : Text) ++ Text.join ", " names ++ [')']
  | _ => []

def fieldDump? : Node → Option Text
  | field _ name type access _ =>
    some <| Text.braced "Field" <| Text.join [' '] <|
      [name, type.type.text] ++ if access = .hidden then [] else [access.text]
  | _ => none

def dumpType (type : Option TypeSpec) (missing : Text) : Text :=
  match type with
  | some spec => spec.type.text
  | none => missing

mutual
/-- The structure of a tree on one line. -/
def dump : Node → Text
  | prefixed _ (.unary op) operand _ =>
    Text.braced "Unary" (op.dump ++ ' ' :: operand.dump)
  | prefixed _ op operand _ => Text.braced op.kind.name operand.dump
  | assignerDereference _ name _ => Text.braced "AssignerDereference" name
  | binary left op right _ =>
    Text.braced "Binary" (left.dump ++ ' ' :: op.dump ++ ' ' :: right.dump)
  | boolean _ value _ => Text.braced "Boolean" (if value then "true" else "false")
  | call name args _ =>
    Text.braced "Call" (name.dump ++ (" (" : Text) ++ Text.join ", " (dumpValues args) ++ [')'])
  | index name subscript _ =>
    Text.braced "Index" (name.dump ++ (" [" : Text) ++ subscript.dump ++ [']'])
  | literal _ kind source _ => Text.braced kind.kind.name source
  | nil _ _ => "Nil"
  | selector s => s.dump
  | zero _ _ => "Zero"
  | expression value => Text.braced "Expression" value.dump
  | assign _ targets values _ =>
    Text.braced "Assign"
      (Text.join ", " (dumpEach targets) ++ (" = " : Text) ++ Text.join ", " (dumpValues values))
  | block _ body _ => dumpBlock (dumpValues body)
  | jump _ kind _ => kind.kind.name
  | forLoop _ none _ body _ => Text.braced "For" (dumpBlock (dumpValues body))
  | forLoop _ (some test) _ body _ =>
    Text.braced "For" (test.dump ++ ' ' :: dumpBlock (dumpValues body))
  | ifElse _ test _ thenBody _ elseBody _ =>
    Text.braced "If" <|
      test.dump ++ ' ' :: dumpBlock (dumpValues thenBody) ++
        if elseBody.isEmpty then [] else (" else " : Text) ++ dumpBlock (dumpValues elseBody)
  | returnValues _ values _ =>
    let values := Text.join ", " (dumpValues values)
    Text.braced "Return" (if values.isEmpty then [] else ' ' :: values)
  | variableDecl _ names type _ =>
    Text.braced "VariableDecl" (Text.join ", " names ++ (" : " : Text) ++ dumpType type "auto")
  | variableDef _ names values _ =>
    Text.braced "VariableDef"
      (Text.join ", " names ++ (" := " : Text) ++ Text.join ", " (dumpValues values))
  | comment _ source => Text.braced "Comment" source
  | constantDef _ isPublic name value _ =>
    Text.braced "ConstantDef" (dumpName isPublic (name ++ (" = " : Text) ++ value.dump))
  | functionDef head params results body =>
    let results :=
      match dumpValues results with
      | [] => [' ']
      | [result] => ' ' :: result ++ [' ']
      | results => (" (" : Text) ++ Text.join ", " results ++ (") " : Text)
    Text.braced "FunctionDef" <|
      dumpName head.isPublic (head.name ++ ['(']) ++ Text.join ", " (dumpValues params) ++
        ')' :: results ++ dumpBlock (dumpValues body)
  | n@(field _ _ _ _ _) => n.fieldDump?.getD []
  | n@(identifier _ _ _) => Text.braced "Identifier" n.identifierText
  | n@(importNames _ _ _ _) => Text.braced "Import" n.importText
  | importList _ imports _ =>
    Text.braced "Imports" (Text.join "; " ((imports.filter (!·.isComment)).map importText))
  | parameter _ name type _ => Text.braced "Parameter" (name ++ ' ' :: dumpType type [])
  | typeDef _ isPublic name fields _ =>
    Text.braced "TypeDef"
      (Text.braced (dumpName isPublic (name ++ [' '])) (Text.join "; " (fields.filterMap fieldDump?)))
  | typeSpec spec => spec.type.text

/-- The dumps of the nodes of a list. -/
def dumpEach : List Node → List Text
  | [] => []
  | n :: ns => n.dump :: dumpEach ns

/-- The dumps of the nodes of a list, without comments. -/
def dumpValues : List Node → List Text
  | [] => []
  | n :: ns => if n.isComment then dumpValues ns else n.dump :: dumpValues ns
end

end Node

end DpLang
