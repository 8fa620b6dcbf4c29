import DpLang.Proofs.Spelling
import DpLang.Proofs.Subexpressions

/-!
# The comments of plans

The comments of an expression, a statement or a definition are written with it, except for those in
the imports below it.
-/

namespace DpLang

section Pieces

def pieceComments (pieces : List Piece) : List Text :=
  pieces.filterMap fun piece => if piece.1 = .comment then some piece.2 else none

variable (pieces more : List Piece)

@[simp] lemma pieceComments_nil : pieceComments [] = [] := rfl

@[simp] lemma pieceComments_append :
    pieceComments (pieces ++ more) = pieceComments pieces ++ pieceComments more :=
  List.filterMap_append

lemma pieceComments_flatMap {α : Type} (f : α → List Piece) (xs : List α) :
    pieceComments (xs.flatMap f) = xs.flatMap fun x => pieceComments (f x) :=
  List.filterMap_flatMap

@[simp] lemma pieceComments_comment (text : Text) :
    pieceComments (commentPiece text :: pieces) = text :: pieceComments pieces := rfl

@[simp] lemma pieceComments_symbol (s : Symbol) :
    pieceComments (symbolPiece s :: pieces) = pieceComments pieces := rfl

@[simp] lemma pieceComments_keyword (k : Keyword) :
    pieceComments (keywordPiece k :: pieces) = pieceComments pieces := rfl

@[simp] lemma pieceComments_word (word : Text) :
    pieceComments (wordPiece word :: pieces) = pieceComments pieces := rfl

@[simp] lemma pieceComments_line : pieceComments (linePiece :: pieces) = pieceComments pieces := rfl

@[simp] lemma pieceComments_gap (gap : Gap) : pieceComments gap.pieces = [] := by
  cases gap <;> rfl

@[simp] lemma pieceComments_inParens : pieceComments (inParens pieces) = pieceComments pieces := by
  simp [inParens]

@[simp] lemma pieceComments_inBraces : pieceComments (inBraces pieces) = pieceComments pieces := by
  rw [inBraces, pieceComments_append, pieceComments_symbol]
  split
  · next h => simp [List.isEmpty_iff.1 h]
  · simp

@[simp] lemma pieceComments_guarded (kinds : List TokenKind) :
    pieceComments (guarded kinds pieces) = pieceComments pieces := by
  unfold guarded
  split <;> simp

@[simp] lemma pieceComments_joined (separator : Symbol) (parts : List (List Piece)) :
    pieceComments (joined separator parts) = parts.flatMap pieceComments := by
  induction parts with
  | nil => rfl
  | cons part parts ih =>
    cases parts with
    | nil => simp [joined]
    | cons next parts =>
      rw [joined_cons_cons, pieceComments_append, pieceComments_symbol, ih]
      rfl

@[simp] lemma pieceComments_joinedWords (separator : Symbol) (words : List Text) :
    pieceComments (joinedWords separator words) = [] := by
  simp [joinedWords]

@[simp] lemma pieceComments_name (name : QualifiedName) : pieceComments name.pieces = [] := by
  unfold QualifiedName.pieces
  split <;> simp

@[simp] lemma pieceComments_flags (flags : TypeFlags) : pieceComments flags.pieces = [] := by
  obtain ⟨assigner, pointer, reference, shared⟩ := flags
  cases assigner <;> cases pointer <;> cases reference <;> cases shared <;> rfl

@[simp] lemma pieceComments_type (type : TypeExpr) : pieceComments type.pieces = [] := by
  induction type with
  | named flags name => simp [TypeExpr.pieces]
  | array flags item ih => simp [TypeExpr.pieces, ih]

@[simp] lemma pieceComments_prefixOp (op : PrefixOp) :
    pieceComments (op.piece :: pieces) = pieceComments pieces := by
  cases op <;> rfl

end Pieces

section Nodes

lemma mem_commentsIn {s : Text} {nodes : List Node} :
    s ∈ commentsIn nodes ↔ ∃ n ∈ nodes, s ∈ n.comments := by
  induction nodes with
  | nil => simp [commentsIn, Node.walkAll]
  | cons n nodes ih => rw [commentsIn_cons, List.mem_append, ih, List.exists_mem_cons_iff]

lemma comments_comment (start : Position) (source : Text) :
    (Node.comment start source).comments = [source] := rfl

lemma comments_dereference (start : Position) (name : Text) (stop : Position) :
    (Node.assignerDereference start name stop).comments = [] := rfl

lemma mem_nestedImportsOf {m : Node} {nodes : List Node} :
    m ∈ Node.nestedImportsOf nodes ↔ ∃ n ∈ nodes, m ∈ n.nestedImports := by
  induction nodes with
  | nil => simp [Node.nestedImportsOf]
  | cons n nodes ih => rw [Node.nestedImportsOf, List.mem_append, ih, List.exists_mem_cons_iff]

lemma mem_nestedImports {n : Node} (h : n.isImport = true) {s : Text} (hs : s ∈ n.comments) :
    n ∈ n.nestedImports := by
  cases n with
  | importNames start path names stop =>
    rw [Node.nestedImports]
    split
    · next hempty =>
      rw [Bool.and_eq_true, List.isEmpty_iff, List.isEmpty_iff] at hempty
      rw [Parser.comments_importNames, hempty.2] at hs
      cases hs
    · exact List.mem_singleton_self _
  | _ => cases h

end Nodes

section Expressions

mutual
lemma comments_exprPlan (outer : Nat) (tight right : Bool) :
    ∀ n : Node, n.isExpr → n.exprPlan.WF →
      pieceComments (n.exprPlan.pieces outer tight right) = n.comments.map Text.strip := by
  intro n h hwf
  cases n with
  | prefixed start op operand stop =>
    rw [Node.isExpr] at h
    rw [Parser.comments_prefixed]
    by_cases hop : op = .unary .identity
    · subst hop
      rw [Node.exprPlan] at hwf ⊢
      exact comments_exprPlan outer tight right operand h hwf
    · have hplan : (Node.prefixed start op operand stop).exprPlan = .prefixed op operand.exprPlan :=
        Node.exprPlan.eq_2 start op operand stop fun h => hop h
      rw [hplan, ExprPlan.WF] at hwf
      rw [hplan, ExprPlan.pieces, pieceComments_prefixOp]
      exact comments_exprPlan _ _ _ operand h hwf.2
  | binary left op operand stop =>
    rw [Node.isExpr, Bool.and_eq_true] at h
    rw [Node.exprPlan, ExprPlan.WF] at hwf
    have hleft (outer : Nat) (tight : Bool) := comments_exprPlan outer tight false left h.1 hwf.1
    have hright (outer : Nat) (tight : Bool) := comments_exprPlan outer tight true operand h.2 hwf.2
    rw [Node.exprPlan, ExprPlan.pieces, Parser.comments_binary]
    split <;> simp [hleft, hright]
  | call name args stop =>
    rw [Node.isExpr] at h
    rw [Node.exprPlan, ExprPlan.WF] at hwf
    obtain ⟨-, hshape, hargs⟩ := hwf
    rw [Node.exprPlan, ExprPlan.pieces, Parser.comments_call]
    cases hs : spansLines name.start.line args with
    | true =>
      rw [hs] at hargs
      simpa using comments_spread _ args h hargs
    | false =>
      rw [hs] at hshape hargs
      simpa using comments_inline true _ args h hargs hshape
  | index name subscript stop =>
    rw [Node.isExpr] at h
    rw [Node.exprPlan, ExprPlan.WF] at hwf
    rw [Node.exprPlan, ExprPlan.pieces, Parser.comments_index]
    simpa using comments_exprPlan 0 false false subscript h hwf.2
  | boolean start value stop => rfl
  | literal start kind source stop => cases kind <;> rfl
  | nil start stop => rfl
  | selector s =>
    rw [Node.exprPlan, ExprPlan.pieces, pieceComments_joinedWords]
    rfl
  | zero start stop => rfl
  | _ => simp [Node.isExpr] at h

lemma comments_inline (first : Bool) (previous : Int) :
    ∀ nodes : List Node, areValues nodes → ValuesWF (valuePlans false previous nodes) →
      areFlat (valuePlans false previous nodes) →
        pieceComments (inlinePieces first (valuePlans false previous nodes)) =
          (commentsIn nodes).map Text.strip := by
  intro nodes h hwf hflat
  match nodes with
  | [] => rfl
  | node :: nodes =>
    have hcomma : pieceComments (if first then [] else [symbolPiece .comma]) = [] := by
      cases first <;> rfl
    cases node with
    | comment start source =>
      rw [valuePlans, areFlat] at hflat
      cases hflat
    | assignerDereference start name stop =>
      rw [areValues] at h
      rw [valuePlans, ValuesWF] at hwf
      rw [valuePlans, areFlat] at hflat
      rw [valuePlans, inlinePieces, commentsIn_cons]
      simpa [hcomma, comments_dereference] using comments_inline false _ nodes h hwf.2 hflat
    | expression value =>
      rw [areValues, Bool.and_eq_true] at h
      rw [valuePlans, ValuesWF] at hwf
      rw [valuePlans, areFlat, Bool.and_eq_true] at hflat
      rw [valuePlans, inlinePieces, commentsIn_cons, Parser.comments_expression]
      simp [hcomma, comments_exprPlan 0 false false value h.1 hwf.1,
        comments_inline false _ nodes h.2 hwf.2 hflat.2]
    | _ => simp [areValues] at h

lemma comments_spread (previous : Int) :
    ∀ nodes : List Node, areValues nodes → ValuesWF (valuePlans true previous nodes) →
      pieceComments (spreadPieces (valuePlans true previous nodes)) =
        (commentsIn nodes).map Text.strip := by
  intro nodes h hwf
  match nodes with
  | [] => rfl
  | node :: nodes =>
    cases node with
    | comment start source =>
      rw [areValues] at h
      rw [valuePlans, ValuesWF] at hwf
      rw [valuePlans, spreadPieces, commentsIn_cons]
      simpa [comments_comment] using comments_spread _ nodes h hwf.2
    | assignerDereference start name stop =>
      rw [areValues] at h
      rw [valuePlans, ValuesWF] at hwf
      rw [valuePlans, spreadPieces, commentsIn_cons]
      simpa [comments_dereference] using comments_spread _ nodes h hwf.2
    | expression value =>
      rw [areValues, Bool.and_eq_true] at h
      rw [valuePlans, ValuesWF] at hwf
      rw [valuePlans, spreadPieces, commentsIn_cons, Parser.comments_expression]
      simp [comments_exprPlan 0 false false value h.1 hwf.1, comments_spread _ nodes h.2 hwf.2]
    | _ => simp [areValues] at h
end

lemma comments_values (kinds : List TokenKind) {spread : Bool} {previous : Int} {nodes : List Node}
    (h : areValues nodes) (hshape : ListShape spread (valuePlans spread previous nodes))
    (hwf : ValuesWF (valuePlans spread previous nodes)) :
    pieceComments (valuesPieces kinds spread (valuePlans spread previous nodes)) =
      (commentsIn nodes).map Text.strip := by
  cases spread with
  | true => simpa [valuesPieces] using comments_spread previous nodes h hwf
  | false => simpa [valuesPieces] using comments_inline true previous nodes h hwf hshape

lemma comments_target {n : Node} (h : n.isTarget) (hwf : n.targetPlan.WF) :
    pieceComments n.targetPlan.pieces = n.comments.map Text.strip := by
  cases n with
  | assignerDereference start name stop => rfl
  | call name args stop =>
    have hcall := comments_exprPlan 0 false false (.call name args stop)
    rw [Node.isExpr, Node.exprPlan] at hcall
    exact hcall h hwf.1
  | index name subscript stop =>
    rw [Node.targetPlan, TargetPlan.pieces, Parser.comments_index]
    simpa using comments_exprPlan 0 true false subscript h hwf.2
  | selector s =>
    rw [Node.targetPlan, TargetPlan.pieces, pieceComments_joinedWords]
    rfl
  | _ => simp [Node.isTarget] at h

lemma comments_targets (first : Bool) {nodes : List Node} (h : ∀ n ∈ nodes, n.isTarget)
    (hwf : ∀ n ∈ nodes, n.targetPlan.WF) :
    pieceComments (targetsPieces first (nodes.map Node.targetPlan)) =
      (commentsIn nodes).map Text.strip := by
  induction nodes generalizing first with
  | nil => rfl
  | cons node nodes ih =>
    rw [List.forall_mem_cons] at h hwf
    have hcomma : pieceComments (if first then [] else [symbolPiece .comma]) = [] := by
      cases first <;> rfl
    rw [List.map_cons, targetsPieces, commentsIn_cons]
    simp [hcomma, comments_target h.1 hwf.1, ih false h.2 hwf.2]

end Expressions

section Statements

/-- The comment is among the pieces, or in an import below the node they were made from. -/
def KeptOrImported (pieces : List Piece) (imports : List Node) (s : Text) : Prop :=
  Text.strip s ∈ pieceComments pieces ∨ s ∈ commentsIn imports

lemma keptOrImported_of_eq {pieces : List Piece} {comments : List Text}
    (h : pieceComments pieces = comments.map Text.strip) :
    ∀ s ∈ comments, KeptOrImported pieces [] s :=
  fun _ hs => .inl (h ▸ List.mem_map_of_mem hs)

lemma assign_keeps {start stop : Position} {targets values : List Node}
    (h : (Node.assign start targets values stop).isStatement)
    (hwf : (Node.assign start targets values stop).statementPlan.WF) :
    ∀ s ∈ (Node.assign start targets values stop).comments,
      KeptOrImported (Node.assign start targets values stop).statementPlan.pieces [] s := by
  rw [Node.isStatement, Bool.and_eq_true, List.all_eq_true] at h
  rw [Node.statementPlan, StatementPlan.WF] at hwf
  obtain ⟨⟨-, htargets⟩, -, hshape, hvalues⟩ := hwf
  rw [Node.statementPlan, StatementPlan.pieces, Parser.comments_assign]
  refine keptOrImported_of_eq ?_
  have hleft := comments_targets true h.1 fun n hn => htargets _ (List.mem_map_of_mem hn)
  simp [hleft, comments_values _ h.2 hshape hvalues]

lemma loopWhile_keeps {test : Node} {plan : List EntryPlan} {body imports : List Node}
    (htest : test.isExpr) (hwf : test.exprPlan.WF)
    (hbody : ∀ s ∈ commentsIn body, KeptOrImported (entriesPieces plan) imports s) :
    ∀ s ∈ test.comments ++ commentsIn body,
      KeptOrImported (StatementPlan.loopWhile test.exprPlan plan).pieces imports s := by
  intro s hs
  have hkept := comments_exprPlan 0 false false test htest hwf
  rw [StatementPlan.pieces]
  simp only [KeptOrImported, pieceComments_append, pieceComments_keyword, ExprPlan.guardedPieces,
    pieceComments_guarded, pieceComments_inBraces, hkept, List.mem_append] at hbody ⊢
  rcases List.mem_append.1 hs with hs | hs
  · exact .inl (.inl (List.mem_map_of_mem hs))
  · exact (hbody s hs).imp_left .inr

lemma ifElse_keeps {test : Node} {thenPlan elsePlan : List EntryPlan}
    {thenBody elseBody thenImports elseImports : List Node} (htest : test.isExpr) (hwf : test.exprPlan.WF)
    (hthen : ∀ s ∈ commentsIn thenBody, KeptOrImported (entriesPieces thenPlan) thenImports s)
    (helse : ∀ s ∈ commentsIn elseBody, KeptOrImported (entriesPieces elsePlan) elseImports s) :
    ∀ s ∈ test.comments ++ commentsIn thenBody ++ commentsIn elseBody,
      KeptOrImported (StatementPlan.ifElse test.exprPlan thenPlan elsePlan).pieces
        (thenImports ++ elseImports) s := by
  intro s hs
  have hkept := comments_exprPlan 0 false false test htest hwf
  have hlast : pieceComments (if elsePlan.isEmpty then []
      else keywordPiece .elseKw :: inBraces (entriesPieces elsePlan)) =
      pieceComments (entriesPieces elsePlan) := by
    split
    · next hempty => rw [List.isEmpty_iff.1 hempty]; rfl
    · simp
  rw [StatementPlan.pieces]
  simp only [KeptOrImported, pieceComments_append, pieceComments_keyword, ExprPlan.guardedPieces,
    pieceComments_guarded, pieceComments_inBraces, hkept, hlast, commentsIn_append,
    List.mem_append] at hthen helse hs ⊢
  rcases hs with (hs | hs) | hs
  · exact .inl (.inl (.inl (List.mem_map_of_mem hs)))
  · exact (hthen s hs).imp (fun h => .inl (.inr h)) .inl
  · exact (helse s hs).imp .inr .inr

mutual
lemma statement_keeps : ∀ n : Node, n.isStatement → n.statementPlan.WF →
    ∀ s ∈ n.comments, KeptOrImported n.statementPlan.pieces n.nestedImports s := by
  intro n h hwf s hs
  cases n with
  | assign start targets values stop => exact assign_keeps h hwf s hs
  | block start body stop =>
    rw [Node.isStatement] at h
    rw [Node.statementPlan, StatementPlan.WF] at hwf
    rw [Parser.comments_block] at hs
    rw [Node.statementPlan, StatementPlan.pieces, Node.nestedImports]
    simpa [KeptOrImported] using entries_keep _ body h hwf.2 s hs
  | jump start kind stop => cases hs
  | expression value =>
    rw [Node.isStatement] at h
    rw [Node.statementPlan, StatementPlan.WF] at hwf
    rw [Parser.comments_expression] at hs
    rw [Node.statementPlan, StatementPlan.pieces, ExprPlan.guardedPieces]
    refine keptOrImported_of_eq ?_ s hs
    simpa using comments_exprPlan 0 false false value h hwf
  | forLoop start test bodyStart body stop =>
    cases test with
    | none =>
      rw [Node.isStatement] at h
      rw [Node.statementPlan, StatementPlan.WF] at hwf
      rw [Parser.comments_forLoop] at hs
      rw [Node.statementPlan, StatementPlan.pieces, Node.nestedImports]
      simpa [KeptOrImported] using entries_keep _ body h hwf.2 s hs
    | some test =>
      rw [Node.isStatement, Bool.and_eq_true] at h
      rw [Node.statementPlan, StatementPlan.WF] at hwf
      rw [Parser.comments_forLoop, Option.toList_some, List.flatMap_singleton] at hs
      rw [Node.statementPlan, Node.nestedImports]
      exact loopWhile_keeps h.1 hwf.1 (entries_keep _ body h.2 hwf.2.2) s hs
  | ifElse start test thenStart thenBody thenStop elseBody stop =>
    rw [Node.isStatement, Bool.and_eq_true, Bool.and_eq_true] at h
    rw [Node.statementPlan, StatementPlan.WF] at hwf
    obtain ⟨htest, ⟨-, hthen⟩, -, helse⟩ := hwf
    rw [Parser.comments_ifElse] at hs
    rw [Node.statementPlan, Node.nestedImports]
    exact ifElse_keeps h.1.1 htest (entries_keep _ thenBody h.1.2 hthen) (entries_keep _ elseBody h.2 helse) s hs
  | returnValues start values stop =>
    rw [Node.isStatement] at h
    rw [Node.statementPlan, StatementPlan.WF] at hwf
    rw [Parser.comments_returnValues] at hs
    rw [Node.statementPlan, StatementPlan.pieces]
    refine keptOrImported_of_eq ?_ s hs
    simpa using comments_values _ h hwf.1 hwf.2
  | variableDecl start names type stop =>
    rw [Node.comments_of_children rfl] at hs
    cases type <;> cases hs
  | variableDef start names values stop =>
    rw [Node.isStatement] at h
    rw [Node.statementPlan, StatementPlan.WF] at hwf
    rw [Parser.comments_variableDef] at hs
    rw [Node.statementPlan, StatementPlan.pieces]
    refine keptOrImported_of_eq ?_ s hs
    simpa using comments_values _ h hwf.2.1 hwf.2.2
  | _ => simp [Node.isStatement] at h

lemma entries_keep (previous : Int) : ∀ nodes : List Node, areStatements nodes →
    EntriesWF (entryPlans previous nodes) → ∀ s ∈ commentsIn nodes,
      KeptOrImported (entriesPieces (entryPlans previous nodes)) (Node.nestedImportsOf nodes) s := by
  intro nodes h hwf s hs
  match nodes with
  | [] => cases hs
  | node :: nodes =>
    rw [commentsIn_cons, List.mem_append] at hs
    rw [Node.nestedImportsOf]
    cases node with
    | importNames start path names stop =>
      rw [areStatements, Bool.and_eq_true] at h
      rw [entryPlans] at hwf ⊢
      rw [KeptOrImported, commentsIn_append, List.mem_append]
      rcases hs with hs | hs
      · exact .inr (.inl (mem_commentsIn.2 ⟨_, mem_nestedImports rfl hs, hs⟩))
      · exact (entries_keep previous nodes h.2 hwf s hs).imp_right .inr
    | comment start source =>
      rw [areStatements] at h
      rw [entryPlans, EntriesWF] at hwf
      rw [entryPlans, entriesPieces, KeptOrImported, commentsIn_append, List.mem_append]
      simp only [pieceComments_append, pieceComments_gap, pieceComments_comment, List.nil_append,
        List.mem_cons]
      rcases hs with hs | hs
      · rw [comments_comment, List.mem_singleton] at hs
        exact .inl (.inl (hs ▸ rfl))
      · exact (entries_keep _ nodes h hwf.2 s hs).imp .inr .inr
    | _ =>
      rw [areStatements, Bool.and_eq_true] at h <;> try simp
      rw [entryPlans, EntriesWF] at hwf <;> try simp
      rw [entryPlans, entriesPieces] <;> try simp
      simp only [KeptOrImported, pieceComments_append, pieceComments_gap, List.nil_append,
        List.mem_append, commentsIn_append]
      rcases hs with hs | hs
      · exact (statement_keeps _ h.1 hwf.1 s hs).imp .inl .inl
      · exact (entries_keep _ nodes h.2 hwf.2 s hs).imp .inr .inr
end

end Statements

section Definitions

variable {α : Type} {item : Node → α} {spread : Bool} {previous : Int} {nodes : List Node}

lemma comments_members {pieces : α → List Piece} (hpieces : ∀ a, pieceComments (pieces a) = [])
    (h : ∀ n ∈ nodes, n.isComment = false → n.comments = []) :
    pieceComments (memberPieces pieces (memberPlans item spread previous nodes)) =
      (commentsIn nodes).map Text.strip := by
  induction nodes generalizing previous with
  | nil => rfl
  | cons node nodes ih =>
    rw [List.forall_mem_cons] at h
    cases node with
    | comment start source =>
      rw [memberPlans, memberPieces, commentsIn_cons, comments_comment]
      simp [ih h.2]
    | _ =>
      rw [memberPlans, memberPieces, commentsIn_cons, h.1 rfl]
      · simp [hpieces, ih h.2]
      · simp

lemma memberPieces_flat {pieces : α → List Piece} (hpieces : ∀ a, pieceComments (pieces a) = [])
    {members : List (Member α)} (h : ∀ member ∈ members, member.mark.2 = false) :
    pieceComments (memberPieces pieces members) = [] := by
  induction members with
  | nil => rfl
  | cons member members ih =>
    rw [List.forall_mem_cons] at h
    cases member with
    | comment gap text => cases h.1
    | item gap a => simp [memberPieces, hpieces, ih h.2]

lemma pieceComments_inlineParameters (params : List ParameterPlan) :
    pieceComments (inlineParameters params) = [] := by
  fun_induction inlineParameters params with
  | case1 => rfl
  | case2 p => simp [ParameterPlan.pieces]
  | case3 p next params ih =>
    rw [pieceComments_append, pieceComments_symbol, ih]
    split <;> simp [ParameterPlan.pieces]

lemma comments_parameters {Q : ParameterPlan → Prop} (h : nodes.all Node.isParameter)
    (hwf : MembersWF Q spread (memberPlans Node.parameterPlan spread previous nodes)) :
    pieceComments (parametersPieces spread (memberPlans Node.parameterPlan spread previous nodes)) =
      (commentsIn nodes).map Text.strip := by
  have hpieces (p : ParameterPlan) : pieceComments (p.pieces ++ [symbolPiece .comma]) = [] := by
    simp [ParameterPlan.pieces]
  have hnodes : ∀ n ∈ nodes, n.isComment = false → n.comments = [] := by
    intro n hn hc
    have hparam := List.all_eq_true.1 h n hn
    cases n with
    | parameter start name type stop => exact Parser.comments_parameter start name type stop
    | comment => cases hc
    | _ => cases hparam
  have hall : pieceComments (memberPieces _ (memberPlans Node.parameterPlan spread previous nodes)) =
      _ := comments_members hpieces hnodes
  cases spread with
  | true => simp [parametersPieces, hall]
  | false =>
    rw [← hall, memberPieces_flat hpieces (hwf.flat rfl)]
    simp [parametersPieces, pieceComments_inlineParameters]

lemma comments_results (h : nodes.all Node.isResult)
    (hwf : MembersWF TypeExpr.WF spread (memberPlans Node.resultPlan spread previous nodes)) :
    pieceComments (resultsPieces spread (memberPlans Node.resultPlan spread previous nodes)) =
      (commentsIn nodes).map Text.strip := by
  have hpieces (t : TypeExpr) : pieceComments (t.pieces ++ [symbolPiece .comma]) = [] := by simp
  have hnodes : ∀ n ∈ nodes, n.isComment = false → n.comments = [] := by
    intro n hn hc
    have hresult := List.all_eq_true.1 h n hn
    cases n with
    | typeSpec spec => rfl
    | comment => cases hc
    | _ => cases hresult
  have hall : pieceComments (memberPieces _ (memberPlans Node.resultPlan spread previous nodes)) = _ :=
    comments_members hpieces hnodes
  cases spread with
  | true => simp [resultsPieces, hall]
  | false =>
    rw [← hall, memberPieces_flat hpieces (hwf.flat rfl)]
    unfold resultsPieces
    rw [if_neg Bool.false_ne_true]
    split <;> simp

lemma pieceComments_receiver (receiver : Option (Text × TypeExpr)) :
    pieceComments (receiverPieces receiver) = [] := by
  unfold receiverPieces
  split <;> simp

lemma pieceComments_public (isPublic : Bool) : pieceComments (publicPieces isPublic) = [] := by
  cases isPublic <;> rfl

lemma functionBody_keeps {results body : List Node} (h : areStatements body)
    (hwf : EntriesWF (entryPlans previous (functionBody results body))) :
    ∀ s ∈ commentsIn body,
      KeptOrImported (entriesPieces (entryPlans previous (functionBody results body)))
        (Node.nestedImportsOf body) s := by
  have hsub := functionBody_sublist results body
  intro s hs
  obtain ⟨n, hn, hs⟩ := mem_commentsIn.1 hs
  obtain hkept | himport | hbare : n ∈ functionBody results body ∨ _ := mem_functionBody hn
  · have hmem : s ∈ commentsIn (functionBody results body) := mem_commentsIn.2 ⟨n, hkept, hs⟩
    refine (entries_keep _ _ (areStatements_sublist hsub h) hwf s hmem).imp_right fun hs => ?_
    obtain ⟨m, hm, hs⟩ := mem_commentsIn.1 hs
    obtain ⟨k, hk, hm⟩ := mem_nestedImportsOf.1 hm
    exact mem_commentsIn.2 ⟨m, mem_nestedImportsOf.2 ⟨k, hsub.subset hk, hm⟩, hs⟩
  · have hmem := mem_nestedImportsOf.2 ⟨n, hn, mem_nestedImports himport hs⟩
    exact .inr (mem_commentsIn.2 ⟨n, hmem, hs⟩)
  · cases n with
    | returnValues start values stop =>
      rw [Parser.comments_returnValues, List.isEmpty_iff.1 hbare] at hs
      cases hs
    | _ => cases hbare

/-- The imports in a member of a file, with the comments among those of an import list. -/
def Node.importsBelow : Node → List Node
  | .functionDef _ _ _ body => Node.nestedImportsOf body
  | .typeDef _ _ _ fields _ => (fields.filter Node.isImport).flatMap Node.nestedImports
  | .importList _ imports _ => imports
  | _ => []

lemma pieceComments_function (f : FunctionPlan) :
    pieceComments f.pieces =
      pieceComments (parametersPieces f.spreadParams f.params) ++
        pieceComments (resultsPieces f.spreadResults f.results) ++
        pieceComments (entriesPieces f.body) := by
  have hname : pieceComments (if f.name.isEmpty then [] else [wordPiece f.name]) = [] := by
    split <;> rfl
  rw [FunctionPlan.pieces]
  simp only [pieceComments_append, pieceComments_public, pieceComments_receiver, hname,
    pieceComments_inBraces, pieceComments_line, pieceComments_nil, List.nil_append, List.append_nil]

lemma function_keeps {head : FunctionHead} {params results body : List Node}
    (hwf : (functionPlan head params results body).WF)
    (h : (Node.functionDef head params results body).isFileMember = true) :
    ∀ s ∈ (Node.functionDef head params results body).comments,
      KeptOrImported (functionPlan head params results body).pieces (Node.nestedImportsOf body) s := by
  rw [Node.isFileMember, Bool.and_eq_true, Bool.and_eq_true] at h
  have hparams : pieceComments _ = _ := comments_parameters h.1.1 hwf.params
  have hresults : pieceComments _ = _ := comments_results h.1.2 hwf.results
  intro s hs
  rw [Parser.comments_functionDef, List.mem_append, List.mem_append] at hs
  rw [KeptOrImported, pieceComments_function, List.mem_append, List.mem_append]
  rcases hs with (hs | hs) | hs
  · exact .inl (.inl (.inl (hparams ▸ List.mem_map_of_mem hs)))
  · exact .inl (.inl (.inr (hresults ▸ List.mem_map_of_mem hs)))
  · exact (functionBody_keeps h.2 hwf.body.2 s hs).imp_left .inr

lemma fields_keep (h : nodes.all Node.isField) :
    ∀ s ∈ commentsIn nodes,
      KeptOrImported (memberPieces FieldPlan.pieces
          (memberPlans Node.fieldPlan true previous (withoutImports nodes)))
        ((nodes.filter Node.isImport).flatMap Node.nestedImports) s := by
  have hpieces (f : FieldPlan) : pieceComments f.pieces = [] := by
    unfold FieldPlan.pieces
    split <;> simp
  have hfields : ∀ n ∈ withoutImports nodes, n.isComment = false → n.comments = [] := by
    intro n hn hc
    obtain ⟨hn, himport⟩ := List.mem_filter.1 hn
    have hfield := List.all_eq_true.1 h n hn
    cases n with
    | field start name type access stop => rfl
    | comment => cases hc
    | importNames => cases himport
    | _ => cases hfield
  intro s hs
  obtain ⟨n, hn, hs⟩ := mem_commentsIn.1 hs
  by_cases himport : n.isImport = true
  · exact .inr (mem_commentsIn.2 ⟨n, List.mem_flatMap.2 ⟨n, List.mem_filter.2 ⟨hn, himport⟩,
      mem_nestedImports himport hs⟩, hs⟩)
  · rw [KeptOrImported, comments_members hpieces hfields]
    have hkept : n ∈ withoutImports nodes := List.mem_filter.2 ⟨hn, by simpa using himport⟩
    exact .inl (List.mem_map_of_mem (mem_commentsIn.2 ⟨n, hkept, hs⟩))

/-- The comments of a definition are written with it, except for those in the imports below it. -/
lemma definition_keeps {n : Node} (h : Parser.IsDefinition n) (tail : List Node) :
    ∀ s ∈ n.comments, KeptOrImported (memberPlan tail n).pieces n.importsBelow s := by
  intro s hs
  cases n with
  | constantDef start isPublic name value stop =>
    rw [Parser.comments_constantDef] at hs
    have hvalue := comments_exprPlan 0 false false value h.2.isExpr h.2.wf
    simp only [KeptOrImported, memberPlan, MemberPlan.pieces, pieceComments_append,
      pieceComments_word, pieceComments_symbol, hvalue, List.mem_append]
    exact .inl (.inl (.inl (.inr (List.mem_map_of_mem hs))))
  | functionDef head params results body => exact function_keeps h.1 h.2.1 s hs
  | typeDef start isPublic name fields stop =>
    rw [Parser.comments_typeDef] at hs
    simpa [KeptOrImported, memberPlan, MemberPlan.pieces, pieceComments_public, Node.importsBelow]
      using fields_keep h.2.1 s hs
  | importList start imports stop => exact .inr (Parser.comments_importList start imports stop ▸ hs)
  | _ => exact h.elim

end Definitions

end DpLang
