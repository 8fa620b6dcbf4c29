import DpLang.Layout.File
import Mathlib.Tactic.Lemma

/-!
# Plans

A plan is a syntax tree without positions. What the layout takes from positions stands in the plan
itself: the gap in front of each member of a list, and whether a list is spread over several lines.
Comments are stripped, the identity operator is gone, and imports do not stand among statements.

Beside each plan stands the test whether a node is one that the plan is made for.
-/

namespace DpLang

lemma bind_ok {ε α β : Type} (a : α) (f : α → Except ε β) : ((.ok a : Except ε α) >>= f) = f a := rfl

lemma ok_of_toOption {ε α : Type} {e : Except ε α} {a : α} (h : e.toOption = some a) : e = .ok a := by
  cases e with
  | error e => cases h
  | ok b => exact congrArg _ (Option.some.inj h)

lemma exists_of_toOption_any {ε α : Type} {e : Except ε α} {p : α → Bool}
    (h : e.toOption.any p = true) : ∃ a, e = .ok a ∧ p a = true := by
  cases e with
  | error e => cases h
  | ok a => exact ⟨a, rfl, h⟩

lemma of_bind_ok {ε α β : Type} {x : Except ε α} {f : α → Except ε β} {b : β} (h : (x >>= f) = .ok b) :
    ∃ a, x = .ok a ∧ f a = .ok b := by
  cases x with
  | error e => cases h
  | ok a => exact ⟨a, rfl, h⟩

section Expressions

mutual
/-- The plan of an expression. -/
inductive ExprPlan where
  | prefixed (op : PrefixOp) (operand : ExprPlan)
  | binary (left : ExprPlan) (op : BinaryOp) (right : ExprPlan)
  | boolean (value : Bool)
  | call (names : List Text) (spread : Bool) (args : List ValuePlan)
  | index (names : List Text) (subscript : ExprPlan)
  | literal (kind : LiteralKind) (source : Text)
  | nil
  | selector (names : List Text)
  | zero

inductive ValuePlan where
  | comment (gap : Gap) (text : Text)
  | dereference (gap : Gap) (name : Text)
  | value (gap : Gap) (value : ExprPlan)
end

/-- The gap in front of a node. On one line, gaps do not matter. -/
def Gap.within (spread : Bool) (previous : Int) (node : Node) : Gap :=
  if spread then .before previous node else .nextLine

lemma Gap.before_eq_sameLine {previous : Int} {node : Node} :
    Gap.before previous node = .sameLine ↔ node.start.line = previous ∧ node.isComment = true := by
  unfold Gap.before
  dsimp only
  by_cases hs : node.start.line = previous
  · cases hc : node.isComment <;> simp [hs]
  · have hstep : node.start.line - previous ≠ 0 := by omega
    simp only [hstep, decide_false, Bool.false_and, Bool.false_eq_true, if_false, hs, false_and,
      iff_false]
    split <;> nofun

mutual
def Node.exprPlan : Node → ExprPlan
  | .prefixed _ (.unary .identity) operand _ => operand.exprPlan
  | .prefixed _ op operand _ => .prefixed op operand.exprPlan
  | .binary left op right _ => .binary left.exprPlan op right.exprPlan
  | .boolean _ value _ => .boolean value
  | .call name args _ =>
    .call name.names (spansLines name.start.line args)
      (valuePlans (spansLines name.start.line args) name.start.line args)
  | .index name subscript _ => .index name.names subscript.exprPlan
  | .literal _ kind source _ => .literal kind source
  | .nil _ _ => .nil
  | .selector s => .selector s.names
  | _ => .zero

/-- The plans of values that follow something that stops on `previous`. -/
def valuePlans (spread : Bool) (previous : Int) : List Node → List ValuePlan
  | [] => []
  | node@(.comment _ source) :: nodes =>
    .comment (.within spread previous node) (Text.strip source) ::
      valuePlans spread node.stop.line nodes
  | node@(.assignerDereference _ name _) :: nodes =>
    .dereference (.within spread previous node) name :: valuePlans spread node.stop.line nodes
  | node@(.expression value) :: nodes =>
    .value (.within spread previous node) value.exprPlan :: valuePlans spread node.stop.line nodes
  | _ :: nodes => valuePlans spread previous nodes
end

mutual
def Node.isExpr : Node → Bool
  | .prefixed _ _ operand _ => operand.isExpr
  | .binary left _ right _ => left.isExpr && right.isExpr
  | .call _ args _ => areValues args
  | .index _ subscript _ => subscript.isExpr
  | .boolean _ _ _ => true
  | .literal _ _ _ _ => true
  | .nil _ _ => true
  | .selector _ => true
  | .zero _ _ => true
  | _ => false

/-- Are the nodes members of a list of values? -/
def areValues : List Node → Bool
  | [] => true
  | .comment _ _ :: nodes => areValues nodes
  | .assignerDereference _ _ _ :: nodes => areValues nodes
  | .expression value :: nodes => value.isExpr && areValues nodes
  | _ :: _ => false
end

end Expressions

section Statements

inductive TargetPlan where
  | dereference (name : Text)
  | call (names : List Text) (spread : Bool) (args : List ValuePlan)
  | index (names : List Text) (subscript : ExprPlan)
  | selector (names : List Text)

mutual
inductive StatementPlan where
  | assign (targets : List TargetPlan) (spread : Bool) (values : List ValuePlan)
  | block (body : List EntryPlan)
  | jump (kind : Jump)
  | expression (value : ExprPlan)
  | loop (body : List EntryPlan)
  | loopWhile (test : ExprPlan) (body : List EntryPlan)
  | ifElse (test : ExprPlan) (thenBody : List EntryPlan) (elseBody : List EntryPlan)
  | returnValues (spread : Bool) (values : List ValuePlan)
  | declare (names : List Text) (type : Option TypeExpr)
  | define (names : List Text) (spread : Bool) (values : List ValuePlan)

/-- The plan of a member of a block. -/
inductive EntryPlan where
  | comment (gap : Gap) (text : Text)
  | statement (gap : Gap) (statement : StatementPlan)
end

def Node.targetPlan : Node → TargetPlan
  | .assignerDereference _ name _ => .dereference name
  | .call name args _ =>
    .call name.names (spansLines name.start.line args)
      (valuePlans (spansLines name.start.line args) name.start.line args)
  | .index name subscript _ => .index name.names subscript.exprPlan
  | .selector s => .selector s.names
  | _ => .selector []

def Node.isTarget : Node → Bool
  | .assignerDereference _ _ _ => true
  | .call _ args _ => areValues args
  | .index _ subscript _ => subscript.isExpr
  | .selector _ => true
  | _ => false

mutual
def Node.statementPlan : Node → StatementPlan
  | .assign start targets values _ =>
    .assign (targets.map Node.targetPlan) (spansLines start.line values)
      (valuePlans (spansLines start.line values) start.line values)
  | .block start body _ => .block (entryPlans start.line body)
  | .jump _ kind _ => .jump kind
  | .expression value => .expression value.exprPlan
  | .forLoop _ none bodyStart body _ => .loop (entryPlans bodyStart.line body)
  | .forLoop _ (some test) bodyStart body _ =>
    .loopWhile test.exprPlan (entryPlans bodyStart.line body)
  | .ifElse _ test thenStart thenBody thenStop elseBody _ =>
    .ifElse test.exprPlan (entryPlans thenStart.line thenBody) (entryPlans thenStop.line elseBody)
  | .returnValues start values _ =>
    .returnValues (spansLines start.line values)
      (valuePlans (spansLines start.line values) start.line values)
  | .variableDecl _ names type _ => .declare names (type.map TypeSpec.type)
  | .variableDef start names values _ =>
    .define names (spansLines start.line values)
      (valuePlans (spansLines start.line values) start.line values)
  | _ => .block []

/-- The plans of statements that follow something that stops on `previous`. -/
def entryPlans (previous : Int) : List Node → List EntryPlan
  | [] => []
  | .importNames _ _ _ _ :: nodes => entryPlans previous nodes
  | node@(.comment _ source) :: nodes =>
    .comment (.before previous node) (Text.strip source) :: entryPlans node.stop.line nodes
  | node :: nodes =>
    .statement (.before previous node) node.statementPlan :: entryPlans node.stop.line nodes
end

/-- Is the path of an import empty or in quotes? -/
def isImportPath (path : Text) : Bool :=
  path.isEmpty || (2 ≤ path.length && path.head? == some '"' && path.getLast? == some '"')

/-- Is the node a member of the names of an import? -/
def Node.isName : Node → Bool
  | .comment _ _ => true
  | .identifier _ _ _ => true
  | _ => false

/-- Is the node an import of names? -/
def Node.isClause : Node → Bool
  | .importNames _ _ names _ => names.all Node.isName
  | _ => false

mutual
def Node.isStatement : Node → Bool
  | .assign _ targets values _ => targets.all Node.isTarget && areValues values
  | .block _ body _ => areStatements body
  | .jump _ _ _ => true
  | .expression value => value.isExpr
  | .forLoop _ none _ body _ => areStatements body
  | .forLoop _ (some test) _ body _ => test.isExpr && areStatements body
  | .ifElse _ test _ thenBody _ elseBody _ =>
    test.isExpr && areStatements thenBody && areStatements elseBody
  | .returnValues _ values _ => areValues values
  | .variableDecl _ _ _ _ => true
  | .variableDef _ _ values _ => areValues values
  | _ => false

/-- Are the nodes members of a block? -/
def areStatements : List Node → Bool
  | [] => true
  | node@(.importNames _ _ _ _) :: nodes => node.isClause && areStatements nodes
  | .comment _ _ :: nodes => areStatements nodes
  | node :: nodes => node.isStatement && areStatements nodes
end

end Statements

section Definitions

/-- A comment or another member of a list, with the gap in front of it. -/
inductive Member (α : Type) where
  | comment (gap : Gap) (text : Text)
  | item (gap : Gap) (item : α)

variable {α : Type}

/-- The members of a list that follow something that stops on `previous`. -/
def memberPlans (item : Node → α) (spread : Bool) (previous : Int) : List Node → List (Member α)
  | [] => []
  | node@(.comment _ source) :: nodes =>
    .comment (.within spread previous node) (Text.strip source) ::
      memberPlans item spread node.stop.line nodes
  | node :: nodes =>
    .item (.within spread previous node) (item node) :: memberPlans item spread node.stop.line nodes

/-- A parameter by its name and type. -/
structure ParameterPlan where
  name : Text
  type : TypeExpr
  deriving DecidableEq, Inhabited

/-- A field by its name, type and access mode. -/
structure FieldPlan where
  name : Text
  type : TypeExpr
  access : FieldAccess
  deriving DecidableEq

def Node.parameterPlan : Node → ParameterPlan
  | .parameter _ name (some type) _ => ⟨name, type.type⟩
  | _ => default

def Node.isParameter : Node → Bool
  | .comment _ _ => true
  | .parameter _ _ (some _) _ => true
  | _ => false

def Node.resultPlan : Node → TypeExpr
  | .typeSpec spec => spec.type
  | _ => default

def Node.isResult : Node → Bool
  | .comment _ _ => true
  | .typeSpec _ => true
  | _ => false

def Node.fieldPlan : Node → FieldPlan
  | .field _ name type access _ => ⟨name, type.type, access⟩
  | _ => ⟨[], default, .hidden⟩

def Node.isField : Node → Bool
  | .comment _ _ => true
  | .field _ _ _ _ _ => true
  | node => node.isClause

/-- Do the parameters of a function that starts on a line stand on lines of their own? -/
def spreadParameters (startLine : Int) (params : List Node) : Bool :=
  match params with
  | [] => false
  | first :: _ => first.start.line ≠ startLine || params.any Node.isComment

/-- Do the results of a function whose parameters stop on a line stand on lines of their own? -/
def spreadResults (startLine : Int) (results : List Node) : Bool :=
  match results with
  | [] => false
  | [result] => result.isComment
  | first :: _ => first.start.line ≠ startLine || results.any Node.isComment

structure FunctionPlan where
  isPublic : Bool
  receiver : Option (Text × TypeExpr)
  name : Text
  spreadParams : Bool
  params : List (Member ParameterPlan)
  spreadResults : Bool
  results : List (Member TypeExpr)
  body : List EntryPlan

def functionPlan (head : FunctionHead) (params results body : List Node) : FunctionPlan where
  isPublic := head.isPublic
  receiver := head.receiverType.map fun type => (head.receiverName, type.type)
  name := head.name
  spreadParams := spreadParameters head.start.line params
  params := memberPlans Node.parameterPlan (spreadParameters head.start.line params)
    head.start.line params
  spreadResults := spreadResults head.paramsStop.line results
  results := memberPlans Node.resultPlan (spreadResults head.paramsStop.line results)
    head.paramsStop.line results
  body := entryPlans head.bodyStart.line (functionBody results body)

/-- A line among the names of an import. -/
inductive NameLine where
  | comment (text : Text)
  | name (text : Text) (tail : Option Text)
  deriving DecidableEq

def CommentedName.lines (name : CommentedName) : List NameLine :=
  name.head.map (fun comment => .comment comment.commentText) ++
    if name.name.isEmpty then []
    else
      .name name.name (name.tail.head?.map Node.commentText) ::
        name.tail.tail.map fun comment => .comment comment.commentText

structure ImportPlan where
  head : List Text
  path : Text
  names : List NameLine
  tail : Option Text
  deriving DecidableEq

def ImportEntry.plan (entry : ImportEntry) : ImportPlan where
  head := entry.head.map Node.commentText
  path := entry.path.getD []
  names := entry.names.flatMap CommentedName.lines
  tail := entry.tail.map Node.commentText

/-- What stands in a file besides comments. -/
inductive MemberPlan where
  | nothing
  | constant (isPublic : Bool) (name : Text) (value : ExprPlan) (tail : Option Text)
  | function (function : FunctionPlan)
  | typeDef (isPublic : Bool) (name : Text) (fields : List (Member FieldPlan))
  | imports (entries : List ImportPlan) (leftovers : List Text)

/-- The plan of a group of a file: whether a blank line stands in front of it, its comments, and
what they belong to. -/
structure GroupPlan where
  gap : Bool
  head : List Text
  member : MemberPlan

/-- The plan of a member of a file with the comments behind it. -/
def memberPlan (tail : List Node) : Node → MemberPlan
  | .constantDef _ isPublic name value _ =>
    .constant isPublic name value.exprPlan (tail.head?.map Node.commentText)
  | .functionDef head params results body => .function (functionPlan head params results body)
  | .typeDef start isPublic name fields _ =>
    .typeDef isPublic name (memberPlans Node.fieldPlan true start.line (withoutImports fields))
  | _ => .nothing

def ImportBlock.plan (block : ImportBlock) (gap : Bool) : GroupPlan where
  gap
  head := block.head.map Node.commentText
  member := .imports ((block.entries.filter (·.path.isSome)).map ImportEntry.plan)
    ((block.entries.filter (·.path.isNone)).flatMap (·.head.map Node.commentText))

/-- The plans of the groups of a file from number `index` on. -/
def groupPlans (imports : Imports.Consolidated) (index : Nat) (previous : Option (Option Node)) :
    List Commented → List GroupPlan
  | [] => []
  | group :: groups =>
    let here := imports.index == some index
    let importing := group.node.any File.isImporting
    if importing && !here then groupPlans imports (index + 1) previous groups
    else
      let gap := previous.any fun node => File.needsGap node group.node
      let rest := groupPlans imports (index + 1) (some group.node) groups
      let own (gap : Bool) : GroupPlan :=
        ⟨gap, group.head.map Node.commentText, (group.node.map (memberPlan group.tail)).getD .nothing⟩
      if !here then own gap :: rest
      else imports.block.plan gap :: if importing then rest else own true :: rest

def filePlan (nodes : List Node) : List GroupPlan :=
  match Imports.consolidate (Commented.split true nodes) with
  | .ok imports => groupPlans imports 0 none (Commented.split true nodes)
  | .error _ => []

def Node.isImportMember (node : Node) : Bool := node.isComment || node.isClause

def Node.isFileMember : Node → Bool
  | .comment _ _ => true
  | .constantDef _ _ _ value _ => value.isExpr
  | .functionDef _ params results body =>
    params.all Node.isParameter && results.all Node.isResult && areStatements body
  | .typeDef _ _ _ fields _ => fields.all Node.isField
  | .importList _ imports _ => imports.all Node.isImportMember
  | _ => false

end Definitions

end DpLang
