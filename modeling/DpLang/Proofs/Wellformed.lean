import DpLang.Proofs.Plan
import DpLang.Token.Lexer

/-!
# Well-formed plans

A plan is well-formed if it can be written in such a way that it can be read again: its words are
words and its literals are literals, a list on one line has nothing in it that ends a line, and no
comment stands behind another one on the same line.
-/

namespace DpLang

/-- The text is one whole token of the kind. -/
def IsLexeme (kind : TokenKind) (text : Text) : Prop := Token.lexeme? text = some (kind, text)

/-- A comment without blanks at its ends. -/
def IsCommentText (text : Text) : Prop := IsLexeme .comment text ∧ Text.strip text = text

/-- The names of a selector: at least one, and all of them words. -/
def AreNames (names : List Text) : Prop := names ≠ [] ∧ ∀ name ∈ names, IsLexeme .word name

/-- Words, with an empty part in front of them if the name starts at the root. -/
def IsQualifiedName (name : QualifiedName) : Prop :=
  ∃ words, AreNames words ∧ (name = words ∨ name = [] :: words)

/-- A type all of whose names are names. -/
def TypeExpr.WF : TypeExpr → Prop
  | named _ name => IsQualifiedName name
  | array _ item => item.WF

def LiteralKind.tokenKind : LiteralKind → TokenKind
  | .integer => .integer
  | .character => .character
  | .string => .string

/-- Only a comment stands behind its predecessor on the same line, and never behind a comment. The
members are given by their gaps and by whether they are comments. -/
def GapsOk (afterComment : Bool) : List (Gap × Bool) → Prop
  | [] => True
  | (gap, isComment) :: members =>
    (gap = .sameLine → isComment = true ∧ afterComment = false) ∧ GapsOk isComment members

section Expressions

/-- The gap of a value and whether it is a comment. -/
def ValuePlan.mark : ValuePlan → Gap × Bool
  | .comment gap _ => (gap, true)
  | .dereference gap _ => (gap, false)
  | .value gap _ => (gap, false)

mutual
/-- Is the expression written on one line? -/
def ExprPlan.isFlat : ExprPlan → Bool
  | .prefixed _ operand => operand.isFlat
  | .binary left _ right => left.isFlat && right.isFlat
  | .call _ spread args => !spread && areFlat args
  | .index _ subscript => subscript.isFlat
  | .literal _ source => !source.contains '\n'
  | .boolean _ => true
  | .nil => true
  | .selector _ => true
  | .zero => true

/-- Are the values written on one line? -/
def areFlat : List ValuePlan → Bool
  | [] => true
  | .comment _ _ :: _ => false
  | .dereference _ _ :: values => areFlat values
  | .value _ value :: values => value.isFlat && areFlat values
end

/-- A list is spread if it has members that need it, and otherwise its members are flat. -/
def ListShape (spread : Bool) (values : List ValuePlan) : Prop :=
  if spread then values ≠ [] ∧ GapsOk false (values.map ValuePlan.mark) else areFlat values

mutual
/-- The expression can be read again. -/
def ExprPlan.WF : ExprPlan → Prop
  | .prefixed op operand => op ≠ .unary .identity ∧ operand.WF
  | .binary left _ right => left.WF ∧ right.WF
  | .call names spread args => AreNames names ∧ ListShape spread args ∧ ValuesWF args
  | .index names subscript => AreNames names ∧ subscript.WF
  | .literal kind source => IsLexeme kind.tokenKind source
  | .selector names => AreNames names
  | .boolean _ => True
  | .nil => True
  | .zero => True

/-- The values can be read again. -/
def ValuesWF : List ValuePlan → Prop
  | [] => True
  | .comment _ text :: values => IsCommentText text ∧ ValuesWF values
  | .dereference _ name :: values => IsLexeme .word name ∧ ValuesWF values
  | .value _ value :: values => value.WF ∧ ValuesWF values
end

end Expressions

section Statements

/-- The target can be read again. No comments stand among the arguments of a call. -/
def TargetPlan.WF : TargetPlan → Prop
  | .dereference name => IsLexeme .word name
  | .call names spread args =>
    (ExprPlan.call names spread args).WF ∧ ∀ arg ∈ args, arg.mark.2 = false
  | .index names subscript => AreNames names ∧ subscript.WF
  | .selector names => AreNames names

/-- The gap of a member of a block and whether it is a comment. -/
def EntryPlan.mark : EntryPlan → Gap × Bool
  | .comment gap _ => (gap, true)
  | .statement gap _ => (gap, false)

mutual
/-- The statement can be read again. -/
def StatementPlan.WF : StatementPlan → Prop
  | .assign targets spread values =>
    (targets ≠ [] ∧ ∀ target ∈ targets, target.WF) ∧ values ≠ [] ∧ ListShape spread values ∧
      ValuesWF values
  | .block body => GapsOk false (body.map EntryPlan.mark) ∧ EntriesWF body
  | .jump _ => True
  | .expression value => value.WF
  | .loop body => GapsOk false (body.map EntryPlan.mark) ∧ EntriesWF body
  | .loopWhile test body =>
    test.WF ∧ GapsOk false (body.map EntryPlan.mark) ∧ EntriesWF body
  | .ifElse test thenBody elseBody =>
    test.WF ∧ (GapsOk false (thenBody.map EntryPlan.mark) ∧ EntriesWF thenBody) ∧
      GapsOk false (elseBody.map EntryPlan.mark) ∧ EntriesWF elseBody
  | .returnValues spread values => ListShape spread values ∧ ValuesWF values
  | .declare names type => (∀ name ∈ names, IsLexeme .word name) ∧ ∀ t ∈ type, t.WF
  | .define names spread values =>
    (∀ name ∈ names, IsLexeme .word name) ∧ ListShape spread values ∧ ValuesWF values

/-- The members of a block can be read again. -/
def EntriesWF : List EntryPlan → Prop
  | [] => True
  | .comment _ text :: entries => IsCommentText text ∧ EntriesWF entries
  | .statement _ s :: entries => s.WF ∧ EntriesWF entries
end

/-- A block whose members can be read again. -/
def BlockWF (body : List EntryPlan) : Prop := GapsOk false (body.map EntryPlan.mark) ∧ EntriesWF body

end Statements

section Definitions

variable {α : Type}

/-- The gap of a member and whether it is a comment. -/
def Member.mark : Member α → Gap × Bool
  | .comment gap _ => (gap, true)
  | .item gap _ => (gap, false)

/-- A comment is a comment, and what is none satisfies `P`. -/
def Member.Satisfies (P : α → Prop) : Member α → Prop
  | .comment _ text => IsCommentText text
  | .item _ a => P a

/-- Members of a list, spread over lines or not, that satisfy `P`. -/
structure MembersWF (P : α → Prop) (spread : Bool) (members : List (Member α)) : Prop where
  gaps : GapsOk false (members.map Member.mark)
  each : ∀ member ∈ members, member.Satisfies P
  flat : spread = false → ∀ member ∈ members, member.mark.2 = false
  nonempty : spread = true → members ≠ []

/-- The name of a definition. It is not the keyword of public definitions unless that stands in front
of it. -/
def IsDefinedName (isPublic : Bool) (name : Text) : Prop :=
  IsLexeme .word name ∧ (isPublic = false → name ≠ ("pub" : Text))

/-- The function can be read again. It may lack a name if it has a receiver. -/
structure FunctionPlan.WF (f : FunctionPlan) : Prop where
  name : match f.receiver with
    | none => IsDefinedName f.isPublic f.name
    | some (receiver, type) =>
      (IsLexeme .word receiver ∧ type.WF) ∧ (f.name = [] ∨ IsLexeme .word f.name)
  params : MembersWF (fun p => IsLexeme .word p.name ∧ p.type.WF) f.spreadParams f.params
  results : MembersWF TypeExpr.WF f.spreadResults f.results
  body : BlockWF f.body

/-- The path of an import, empty or a string in double quotes. -/
def IsPathText (path : Text) : Prop := path = [] ∨ (IsLexeme .string path ∧ path.head? = some '"')

def IsNameText (text : Text) : Prop := ∃ name, IsQualifiedName name ∧ text = QualifiedName.text name

/-- The line can be read again. -/
def NameLine.WF : NameLine → Prop
  | .comment text => IsCommentText text
  | .name text tail => IsNameText text ∧ ∀ comment ∈ tail, IsCommentText comment

/-- The import can be read again. -/
structure ImportPlan.WF (entry : ImportPlan) : Prop where
  head : ∀ comment ∈ entry.head, IsCommentText comment
  path : IsPathText entry.path
  names : ∀ line ∈ entry.names, line.WF
  tail : ∀ comment ∈ entry.tail, IsCommentText comment

/-- The field can be read again. -/
def FieldPlan.WF (f : FieldPlan) : Prop := IsLexeme .word f.name ∧ f.type.WF

/-- The member of a file can be read again. -/
def MemberPlan.WF : MemberPlan → Prop
  | .nothing => True
  | .constant isPublic name value tail =>
    IsDefinedName isPublic name ∧ value.WF ∧ ∀ comment ∈ tail, IsCommentText comment
  | .function f => f.WF
  | .typeDef isPublic name fields =>
    IsDefinedName isPublic name ∧ GapsOk false (fields.map Member.mark) ∧
      ∀ field ∈ fields, field.Satisfies FieldPlan.WF
  | .imports entries leftovers =>
    (∀ entry ∈ entries, entry.WF) ∧ ∀ comment ∈ leftovers, IsCommentText comment

/-- The group of a file can be read again. -/
structure GroupPlan.WF (group : GroupPlan) : Prop where
  head : ∀ comment ∈ group.head, IsCommentText comment
  member : group.member.WF

end Definitions

end DpLang
