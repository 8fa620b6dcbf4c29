import DpLang.Proofs.FileLayout
import DpLang.Proofs.Scanning

/-!
# The tokens of plans

For every plan, the tokens in which it is written, apart from blanks. Blank lines are two line ends.
-/

namespace DpLang

section Pieces

def symbolPiece (s : Symbol) : Piece := (.symbol s, s.spelling)

/-- A reserved word. -/
def keywordPiece (k : Keyword) : Piece := (.keyword k, k.spelling)

def wordPiece (word : Text) : Piece := (.word, word)

def commentPiece (text : Text) : Piece := (.comment, text)

def linePiece : Piece := (.newline, ['\n'])

/-- The line ends in front of a member of a list. -/
def Gap.pieces : Gap → List Piece
  | .sameLine => []
  | .nextLine => [linePiece]
  | .blankLine => [linePiece, linePiece]

def inParens (pieces : List Piece) : List Piece :=
  symbolPiece .parenLeft :: pieces ++ [symbolPiece .parenRight]

/-- Parts with a symbol between them. -/
def joined (separator : Symbol) (parts : List (List Piece)) : List Piece :=
  (parts.intersperse [symbolPiece separator]).flatten

def joinedWords (separator : Symbol) (words : List Text) : List Piece :=
  joined separator (words.map fun word => [wordPiece word])

def QualifiedName.pieces : QualifiedName → List Piece
  | [] :: words => symbolPiece .colons :: joinedWords .colons words
  | words => joinedWords .colons words

def TypeFlags.pieces (flags : TypeFlags) : List Piece :=
  (if flags.assigner then [symbolPiece .assign] else []) ++
    (if flags.pointer then [symbolPiece .asterisk] else []) ++
    (if flags.reference then [symbolPiece .ampersand] else []) ++
    (if flags.shared then [symbolPiece .hash] else [])

def TypeExpr.pieces : TypeExpr → List Piece
  | named flags name => flags.pieces ++ name.pieces
  | array flags item =>
    flags.pieces ++ symbolPiece .bracketLeft :: item.pieces ++ [symbolPiece .bracketRight]

end Pieces

section Expressions

/-- An operator in front of its operand. -/
def PrefixOp.piece : PrefixOp → Piece
  | .address => symbolPiece .ampersand
  | .clone => keywordPiece .cloneKw
  | .dereference => symbolPiece .asterisk
  | .unary op => symbolPiece op.symbol

mutual
/-- An expression inside an operator of precedence `outer`. -/
def ExprPlan.pieces (outer : Nat) (tight right : Bool) : ExprPlan → List Piece
  | .prefixed op operand => op.piece :: operand.pieces ultimatePrecedence tight false
  | .binary left op operand =>
    let style := BinaryStyle.choose op.precedence outer tight right
    let inner := left.pieces op.precedence style.tight false ++
      symbolPiece op.symbol :: operand.pieces op.precedence style.tight true
    if style.parens then inParens inner else inner
  | .boolean value => [keywordPiece (if value then .trueKw else .falseKw)]
  | .call names spread args =>
    joinedWords .period names ++
      inParens (if spread then spreadPieces args ++ [linePiece] else inlinePieces true args)
  | .index names subscript =>
    joinedWords .period names ++
      symbolPiece .bracketLeft :: subscript.pieces 0 false false ++ [symbolPiece .bracketRight]
  | .literal kind source => [(kind.tokenKind, source)]
  | .nil => [keywordPiece .nilKw]
  | .selector names => joinedWords .period names
  | .zero => [symbolPiece .braceLeft, symbolPiece .braceRight]

/-- Values on one line. -/
def inlinePieces (first : Bool) : List ValuePlan → List Piece
  | [] => []
  | .comment _ _ :: values => inlinePieces first values
  | .dereference _ name :: values =>
    (if first then [] else [symbolPiece .comma]) ++ inParens [wordPiece name] ++
      inlinePieces false values
  | .value _ value :: values =>
    (if first then [] else [symbolPiece .comma]) ++ value.pieces 0 false false ++
      inlinePieces false values

/-- Values on several lines. -/
def spreadPieces : List ValuePlan → List Piece
  | [] => []
  | .comment gap text :: values => gap.pieces ++ commentPiece text :: spreadPieces values
  | .dereference gap name :: values =>
    gap.pieces ++ inParens [wordPiece name] ++ symbolPiece .comma :: spreadPieces values
  | .value gap value :: values =>
    gap.pieces ++ value.pieces 0 false false ++ symbolPiece .comma :: spreadPieces values
end

/-- Do the pieces start with one of the kinds? -/
def startsWith (kinds : List TokenKind) (pieces : List Piece) : Bool :=
  pieces.head?.any fun piece => kinds.contains piece.1

/-- Pieces in parentheses if they start with one of the kinds. -/
def guarded (kinds : List TokenKind) (pieces : List Piece) : List Piece :=
  if startsWith kinds pieces then inParens pieces else pieces

/-- An expression that must not start with a brace. -/
def ExprPlan.guardedPieces (value : ExprPlan) : List Piece :=
  guarded [.symbol .braceLeft] (value.pieces 0 false false)

/-- A list of values that must not start with one of the kinds unless it is in parentheses. -/
def valuesPieces (kinds : List TokenKind) (spread : Bool) (values : List ValuePlan) : List Piece :=
  if spread then inParens (spreadPieces values ++ [linePiece])
  else guarded kinds (inlinePieces true values)

end Expressions

section Statements

def TargetPlan.pieces : TargetPlan → List Piece
  | .dereference name => inParens [wordPiece name]
  | .call names spread args => (ExprPlan.call names spread args).pieces 0 false false
  | .index names subscript =>
    joinedWords .period names ++
      symbolPiece .bracketLeft :: subscript.pieces 0 true false ++ [symbolPiece .bracketRight]
  | .selector names => joinedWords .period names

def targetsPieces (first : Bool) : List TargetPlan → List Piece
  | [] => []
  | target :: targets =>
    (if first then [] else [symbolPiece .comma]) ++ target.pieces ++ targetsPieces false targets

/-- A block with members in it, or an empty one. -/
def inBraces (pieces : List Piece) : List Piece :=
  symbolPiece .braceLeft :: (if pieces.isEmpty then [] else pieces ++ [linePiece]) ++
    [symbolPiece .braceRight]

mutual
def StatementPlan.pieces : StatementPlan → List Piece
  | .assign targets spread values =>
    targetsPieces true targets ++ symbolPiece .assign ::
      valuesPieces [.symbol .parenLeft, .symbol .braceLeft] spread values
  | .block body => inBraces (entriesPieces body)
  | .jump .breakLoop => [keywordPiece .breakKw]
  | .jump .continueLoop => [keywordPiece .continueKw]
  | .expression value => value.guardedPieces
  | .loop body => keywordPiece .forKw :: inBraces (entriesPieces body)
  | .loopWhile test body =>
    keywordPiece .forKw :: test.guardedPieces ++ inBraces (entriesPieces body)
  | .ifElse test thenBody elseBody =>
    keywordPiece .ifKw :: test.guardedPieces ++ inBraces (entriesPieces thenBody) ++
      if elseBody.isEmpty then [] else keywordPiece .elseKw :: inBraces (entriesPieces elseBody)
  | .returnValues spread values =>
    keywordPiece .returnKw :: valuesPieces [.symbol .braceLeft] spread values
  | .declare names type =>
    joinedWords .comma names ++ symbolPiece .colon ::
      (type.map TypeExpr.pieces).getD [keywordPiece .autoKw]
  | .define names spread values =>
    joinedWords .comma names ++ symbolPiece .define ::
      valuesPieces [.symbol .parenLeft, .symbol .braceLeft] spread values

/-- The members of a block. -/
def entriesPieces : List EntryPlan → List Piece
  | [] => []
  | .comment gap text :: entries => gap.pieces ++ commentPiece text :: entriesPieces entries
  | .statement gap s :: entries => gap.pieces ++ s.pieces ++ entriesPieces entries
end

end Statements

section Definitions

variable {α : Type}

/-- The members of a list on lines of their own. -/
def memberPieces (item : α → List Piece) : List (Member α) → List Piece
  | [] => []
  | .comment gap text :: members => gap.pieces ++ commentPiece text :: memberPieces item members
  | .item gap a :: members => gap.pieces ++ item a ++ memberPieces item members

/-- The keyword of a public definition. -/
def publicPieces (isPublic : Bool) : List Piece := if isPublic then [wordPiece "pub"] else []

def ParameterPlan.pieces (p : ParameterPlan) : List Piece := wordPiece p.name :: p.type.pieces

/-- Parameters on one line. A type stands behind the last parameter of those that have it. -/
def inlineParameters : List ParameterPlan → List Piece
  | [] => []
  | [p] => p.pieces
  | p :: next :: params =>
    (if p.type = next.type then [wordPiece p.name] else p.pieces) ++
      symbolPiece .comma :: inlineParameters (next :: params)

def parametersPieces (spread : Bool) (params : List (Member ParameterPlan)) : List Piece :=
  inParens (if spread then
      memberPieces (fun p => p.pieces ++ [symbolPiece .comma]) params ++ [linePiece]
    else inlineParameters (memberItems params))

def resultsPieces (spread : Bool) (results : List (Member TypeExpr)) : List Piece :=
  if spread then
    inParens (memberPieces (fun t => t.pieces ++ [symbolPiece .comma]) results ++ [linePiece])
  else
    match memberItems results with
    | [type] => type.pieces
    | types => inParens (joined .comma (types.map TypeExpr.pieces))

def receiverPieces : Option (Text × TypeExpr) → List Piece
  | none => []
  | some (name, type) => inParens (wordPiece name :: type.pieces)

def FunctionPlan.pieces (f : FunctionPlan) : List Piece :=
  publicPieces f.isPublic ++ receiverPieces f.receiver ++
    (if f.name.isEmpty then [] else [wordPiece f.name]) ++
    parametersPieces f.spreadParams f.params ++ resultsPieces f.spreadResults f.results ++
    inBraces (entriesPieces f.body) ++ [linePiece]

def FieldPlan.pieces (f : FieldPlan) : List Piece :=
  wordPiece f.name :: f.type.pieces ++
    if f.access = .hidden then [] else [wordPiece f.access.text]

def QualifiedName.ofText : Text → QualifiedName
  | [] => [[]]
  | [c] => [[c]]
  | c :: d :: rest =>
    if c = ':' ∧ d = ':' then [] :: ofText rest
    else
      match ofText (d :: rest) with
      | [] => [[c]]
      | part :: parts => (c :: part) :: parts

/-- A line among the names of an import, with the line end in front of it. -/
def NameLine.pieces : NameLine → List Piece
  | .comment text => [linePiece, commentPiece text]
  | .name text tail =>
    linePiece :: (QualifiedName.ofText text).pieces ++
      symbolPiece .comma :: (tail.map commentPiece).toList

/-- The names of an import in parentheses. -/
def namesPieces (names : List NameLine) : List Piece :=
  inParens (if names.all NameLine.isBare then
      joined .comma (names.map fun name => (QualifiedName.ofText name.nameText).pieces)
    else names.flatMap NameLine.pieces ++ [linePiece])

def commentLinePieces (comments : List Text) : List Piece :=
  comments.flatMap fun comment => [commentPiece comment, linePiece]

namespace ImportPlan

def linePieces (entry : ImportPlan) : List Piece :=
  (if entry.path.isEmpty then [] else [(.string, entry.path)]) ++
    (if entry.names.isEmpty then [] else namesPieces entry.names) ++
    (entry.tail.map commentPiece).toList ++ [linePiece]

/-- The import behind one with the path `previous`. -/
def pieces (previous : Option Text) (entry : ImportPlan) : List Piece :=
  (if previous.any fun path => pathGroup path ≠ pathGroup entry.path then [linePiece] else []) ++
    commentLinePieces entry.head ++ entry.linePieces

end ImportPlan

/-- The imports behind one with the path `previous`, and the comments that belong to none. -/
def importsPieces (leftovers : List Text) (previous : Option Text) : List ImportPlan → List Piece
  | [] => if leftovers.isEmpty then [] else linePiece :: commentLinePieces leftovers
  | entry :: entries => entry.pieces previous ++ importsPieces leftovers (some entry.path) entries

def MemberPlan.pieces : MemberPlan → List Piece
  | .nothing => []
  | .constant isPublic name value tail =>
    publicPieces isPublic ++ wordPiece name :: symbolPiece .assign :: value.pieces 0 false false ++
      (tail.map commentPiece).toList ++ [linePiece]
  | .function f => f.pieces
  | .typeDef isPublic name fields =>
    publicPieces isPublic ++ wordPiece name :: inBraces (memberPieces FieldPlan.pieces fields) ++
      [linePiece]
  | .imports entries leftovers =>
    keywordPiece .importKw :: symbolPiece .braceLeft :: linePiece ::
      importsPieces leftovers none entries ++ [symbolPiece .braceRight, linePiece]

def GroupPlan.pieces (group : GroupPlan) : List Piece :=
  (if group.gap then [linePiece] else []) ++ commentLinePieces group.head ++ group.member.pieces

def filePieces (groups : List GroupPlan) : List Piece := groups.flatMap GroupPlan.pieces

end Definitions

end DpLang
