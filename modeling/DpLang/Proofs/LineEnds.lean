import DpLang.Proofs.KeptTexts
import DpLang.Proofs.ImportResolution
import DpLang.Proofs.SpellingFile

/-!
# Line ends among the pieces of a file

Within expressions, statements and definitions, line ends only stand between other pieces, and never
more than two of them together. The groups of a file are such pieces with a line end behind them.
-/

namespace DpLang

section Pieces

/-- A piece without a line end in it. -/
def OnLine (p : Piece) : Prop := p.1 ≠ .newline ∧ (p.1.isFlat = false → '\n' ∉ p.2)

/-- Pieces with line ends only between them, and no more of them than a gap has. -/
inductive Tidy : List Piece → Prop where
  | piece {p : Piece} (h : OnLine p) : Tidy [p]
  | apart (gap : Gap) {front back : List Piece} (hfront : Tidy front) (hback : Tidy back) :
      Tidy (front ++ gap.pieces ++ back)

/-- What can be put behind tidy pieces. -/
def Continues (more : List Piece) : Prop := ∀ front, Tidy front → Tidy (front ++ more)

/-- All pieces are of kinds that never have a line end in them. -/
def AllFlat (pieces : List Piece) : Prop := ∀ p ∈ pieces, p.1.isFlat = true

variable {front back pieces more : List Piece}

lemma onLine_of_isFlat {p : Piece} (h : p.1.isFlat = true) : OnLine p := by
  refine ⟨fun hline => ?_, fun hflat => absurd (hflat.symm.trans h) Bool.false_ne_true⟩
  rw [hline] at h
  cases h

lemma Tidy.append (hfront : Tidy front) (hback : Tidy back) : Tidy (front ++ back) := by
  have h := Tidy.apart .sameLine hfront hback
  rw [Gap.pieces, List.append_nil] at h
  exact h

lemma Tidy.continues (h : Tidy pieces) : Continues pieces := fun _ hfront => hfront.append h

lemma continues_nil : Continues [] := by
  intro front h
  rw [List.append_nil]
  exact h

lemma Continues.append (h : Continues pieces) (hmore : Continues more) : Continues (pieces ++ more) := by
  intro front hfront
  rw [← List.append_assoc]
  exact hmore _ (h front hfront)

lemma Tidy.behind (gap : Gap) (h : Tidy pieces) : Continues (gap.pieces ++ pieces) := by
  intro front hfront
  rw [← List.append_assoc]
  exact .apart gap hfront h

lemma continues_flatMap {α : Type} {f : α → List Piece} {xs : List α} (h : ∀ x ∈ xs, Continues (f x)) :
    Continues (xs.flatMap f) := by
  induction xs with
  | nil => exact continues_nil
  | cons x xs ih =>
    obtain ⟨hx, hxs⟩ := List.forall_mem_cons.1 h
    rw [List.flatMap_cons]
    exact hx.append (ih hxs)

@[simp] lemma allFlat_nil : AllFlat [] := List.forall_mem_nil _

@[simp] lemma allFlat_append : AllFlat (pieces ++ more) ↔ AllFlat pieces ∧ AllFlat more :=
  List.forall_mem_append

@[simp] lemma allFlat_symbol (s : Symbol) : AllFlat (symbolPiece s :: pieces) ↔ AllFlat pieces := by
  simp [AllFlat, symbolPiece, TokenKind.isFlat]

@[simp] lemma allFlat_keyword (k : Keyword) : AllFlat (keywordPiece k :: pieces) ↔ AllFlat pieces := by
  simp [AllFlat, keywordPiece, TokenKind.isFlat]

@[simp] lemma allFlat_word (word : Text) : AllFlat (wordPiece word :: pieces) ↔ AllFlat pieces := by
  simp [AllFlat, wordPiece, TokenKind.isFlat]

@[simp] lemma allFlat_comment (text : Text) : AllFlat (commentPiece text :: pieces) ↔ AllFlat pieces := by
  simp [AllFlat, commentPiece, TokenKind.isFlat]

@[simp] lemma allFlat_inParens : AllFlat (inParens pieces) ↔ AllFlat pieces := by simp [inParens]

lemma allFlat_joined (separator : Symbol) {parts : List (List Piece)} (h : ∀ part ∈ parts, AllFlat part) :
    AllFlat (joined separator parts) := by
  induction parts with
  | nil => exact allFlat_nil
  | cons part parts ih =>
    obtain ⟨hpart, hparts⟩ := List.forall_mem_cons.1 h
    cases parts with
    | nil => simpa [joined] using hpart
    | cons next parts =>
      rw [joined_cons_cons]
      simpa using ⟨hpart, ih hparts⟩

@[simp] lemma allFlat_joinedWords (separator : Symbol) (words : List Text) :
    AllFlat (joinedWords separator words) :=
  allFlat_joined separator fun part hpart => by
    obtain ⟨word, -, rfl⟩ := List.mem_map.1 hpart
    simp

@[simp] lemma allFlat_name (name : QualifiedName) : AllFlat name.pieces := by
  unfold QualifiedName.pieces
  split <;> simp

@[simp] lemma allFlat_type (type : TypeExpr) : AllFlat type.pieces := by
  have hflags (flags : TypeFlags) : AllFlat flags.pieces := by
    obtain ⟨assigner, pointer, reference, shared⟩ := flags
    cases assigner <;> cases pointer <;> cases reference <;> cases shared <;> simp [TypeFlags.pieces]
  induction type with
  | named flags name => simp [TypeExpr.pieces, hflags]
  | array flags item ih => simp [TypeExpr.pieces, hflags, ih]

lemma AllFlat.continues (h : AllFlat pieces) : Continues pieces := by
  induction pieces with
  | nil => exact continues_nil
  | cons p pieces ih =>
    obtain ⟨hp, hpieces⟩ := List.forall_mem_cons.1 h
    exact Continues.append (Tidy.piece (onLine_of_isFlat hp)).continues (ih hpieces)

lemma AllFlat.tidy (h : AllFlat pieces) (hne : pieces ≠ []) : Tidy pieces := by
  obtain ⟨p, rest, rfl⟩ := List.exists_cons_of_ne_nil hne
  obtain ⟨hp, hrest⟩ := List.forall_mem_cons.1 h
  exact AllFlat.continues hrest [p] (Tidy.piece (onLine_of_isFlat hp))

lemma AllFlat.before (h : AllFlat front) (hback : Tidy back) : Tidy (front ++ back) := by
  cases front with
  | nil => exact hback
  | cons p front => exact (h.tidy (List.cons_ne_nil _ _)).append hback

lemma tidy_symbol (s : Symbol) : Tidy [symbolPiece s] := .piece (onLine_of_isFlat rfl)

lemma tidy_comment (text : Text) : Tidy [commentPiece text] := .piece (onLine_of_isFlat rfl)

lemma Continues.comment (gap : Gap) (text : Text) (h : Continues more) :
    Continues (gap.pieces ++ commentPiece text :: more) := by
  have hcomment := ((tidy_comment text).behind gap).append h
  rw [List.append_assoc] at hcomment
  exact hcomment

lemma Continues.inParens (h : Continues pieces) : Tidy (inParens pieces) :=
  (h _ (tidy_symbol .parenLeft)).append (tidy_symbol .parenRight)

lemma Continues.closed (h : Continues pieces) (s : Symbol) :
    Continues (pieces ++ [linePiece] ++ [symbolPiece s]) := by
  rw [List.append_assoc]
  exact h.append ((tidy_symbol s).behind .nextLine)

lemma Continues.inParens_line (h : Continues pieces) : Tidy (DpLang.inParens (pieces ++ [linePiece])) :=
  h.closed .parenRight _ (tidy_symbol .parenLeft)

lemma Continues.inBraces (h : Continues pieces) : Tidy (inBraces pieces) := by
  unfold DpLang.inBraces
  split
  · exact (tidy_symbol .braceLeft).append (tidy_symbol .braceRight)
  · exact h.closed .braceRight _ (tidy_symbol .braceLeft)

lemma Continues.guarded (kinds : List TokenKind) (h : Continues pieces) : Continues (guarded kinds pieces) := by
  unfold DpLang.guarded
  split
  · exact h.inParens.continues
  · exact h

end Pieces

section Literals

variable {n m : Node} {nodes more : List Node}

/-- No literal or import path in the nodes has a line end in it. -/
def Unbroken (nodes : List Node) : Prop :=
  ∀ n ∈ Node.walkAll nodes, ∀ kept ∈ n.keptText?, kept.1.isFlat = false → '\n' ∉ kept.2

lemma Unbroken.mono (h : Unbroken nodes) (hs : more ⊆ nodes) : Unbroken more := by
  intro n hn
  obtain ⟨m, hm, hn⟩ := mem_walkAll.1 hn
  exact h n (mem_walkAll.2 ⟨m, hs hm, hn⟩)

lemma Unbroken.of_mem (h : Unbroken nodes) (hn : n ∈ nodes) : Unbroken [n] := h.mono (by simpa using hn)

lemma Unbroken.children (h : Unbroken [n]) : Unbroken n.children := by
  intro m hm
  apply h m
  rw [walkAll_cons, Node.walk_eq]
  simp [hm]

lemma Unbroken.below (h : Unbroken [n]) (hs : nodes ⊆ n.children) : Unbroken nodes := h.children.mono hs

lemma Unbroken.standsIn (h : Unbroken nodes) (hn : StandsIn n nodes) : Unbroken [n] := by
  induction hn with
  | here hmem => exact h.of_mem hmem
  | block hmem _ ih => exact ih ((h.of_mem hmem).below (List.Subset.refl _))
  | forLoop hmem _ ih => exact ih ((h.of_mem hmem).below (List.subset_append_right _ _))
  | thenBody hmem _ ih => exact ih ((h.of_mem hmem).below (by simp [Node.children]))
  | elseBody hmem _ ih => exact ih ((h.of_mem hmem).below (by simp [Node.children]))

end Literals

section Expressions

lemma tidy_names {names : List Text} (h : AreNames names) : Tidy (joinedWords .period names) := by
  apply (allFlat_joinedWords .period names).tidy
  obtain ⟨name, names, rfl⟩ := List.exists_cons_of_ne_nil h.1
  cases names with
  | nil => simp [joinedWords, joined]
  | cons next names => simp [joinedWords, joined_cons_cons]

mutual
lemma tidy_expr (outer : Nat) (tight right : Bool) :
    ∀ n : Node, n.exprPlan.WF → Unbroken [n] → Tidy (n.exprPlan.pieces outer tight right) := by
  intro n hwf h
  cases n with
  | prefixed start op operand stop =>
    have hoperand : Unbroken [operand] := h.children
    by_cases hop : op = .unary .identity
    · subst hop
      rw [Node.exprPlan] at hwf ⊢
      exact tidy_expr outer tight right operand hwf hoperand
    · have hplan : (Node.prefixed start op operand stop).exprPlan = .prefixed op operand.exprPlan :=
        Node.exprPlan.eq_2 start op operand stop fun h => hop h
      rw [hplan, ExprPlan.WF] at hwf
      rw [hplan, ExprPlan.pieces]
      have hflat : AllFlat [op.piece] := by cases op <;> simp [PrefixOp.piece]
      exact hflat.before (tidy_expr _ _ _ operand hwf.2 hoperand)
  | binary left op operand stop =>
    rw [Node.exprPlan, ExprPlan.WF] at hwf
    have hleft (outer : Nat) (tight : Bool) :=
      tidy_expr outer tight false left hwf.1 (h.below (by simp [Node.children]))
    have hright (outer : Nat) (tight : Bool) :=
      tidy_expr outer tight true operand hwf.2 (h.below (by simp [Node.children]))
    rw [Node.exprPlan, ExprPlan.pieces]
    have hinner := fun inner tight =>
      (hleft inner tight).append ((tidy_symbol op.symbol).append (hright inner tight))
    split
    · exact (hinner _ _).continues.inParens
    · exact hinner _ _
  | call name args stop =>
    rw [Node.exprPlan, ExprPlan.WF] at hwf
    have hargs : Unbroken args := h.below (by simp [Node.children])
    rw [Node.exprPlan, ExprPlan.pieces]
    apply (tidy_names hwf.1).append
    split
    · exact (continues_spread _ _ args hwf.2.2 hargs).inParens_line
    · exact (continues_inline true _ _ args hwf.2.2 hargs).inParens
  | index name subscript stop =>
    rw [Node.exprPlan, ExprPlan.WF] at hwf
    have hsubscript := tidy_expr 0 false false subscript hwf.2 (h.below (by simp [Node.children]))
    rw [Node.exprPlan, ExprPlan.pieces, List.append_assoc]
    exact (tidy_names hwf.1).append
      ((tidy_symbol .bracketLeft).append (hsubscript.append (tidy_symbol .bracketRight)))
  | literal start kind source stop =>
    refine .piece ⟨by cases kind <;> simp [LiteralKind.tokenKind], ?_⟩
    exact h (.literal start kind source stop) (by simp [Node.walkAll, Node.walk]) _ rfl
  | selector s =>
    rw [Node.exprPlan, ExprPlan.WF] at hwf
    rw [Node.exprPlan, ExprPlan.pieces]
    exact tidy_names hwf
  | boolean start value stop => exact .piece (onLine_of_isFlat rfl)
  | nil start stop => exact .piece (onLine_of_isFlat rfl)
  | _ =>
    rw [Node.exprPlan, ExprPlan.pieces] <;> try simp
    exact (tidy_symbol .braceLeft).append (tidy_symbol .braceRight)

lemma continues_inline (first spread : Bool) (previous : Int) :
    ∀ nodes : List Node, ValuesWF (valuePlans spread previous nodes) → Unbroken nodes →
      Continues (inlinePieces first (valuePlans spread previous nodes)) := by
  intro nodes hwf h
  match nodes with
  | [] => exact continues_nil
  | node :: nodes =>
    have hcomma : AllFlat (if first then [] else [symbolPiece .comma]) := by cases first <;> simp
    have hnodes : Unbroken nodes := h.mono (List.subset_cons_self _ _)
    cases node with
    | comment start source =>
      rw [valuePlans, ValuesWF] at hwf
      rw [valuePlans, inlinePieces]
      exact continues_inline first spread _ nodes hwf.2 hnodes
    | assignerDereference start name stop =>
      rw [valuePlans, ValuesWF] at hwf
      rw [valuePlans, inlinePieces]
      have hname : AllFlat (inParens [wordPiece name]) := by simp
      exact (hcomma.continues.append hname.continues).append (continues_inline false spread _ nodes hwf.2 hnodes)
    | expression value =>
      rw [valuePlans, ValuesWF] at hwf
      rw [valuePlans, inlinePieces]
      have hvalue := tidy_expr 0 false false value hwf.1 (h.of_mem List.mem_cons_self).children
      exact (hcomma.continues.append hvalue.continues).append (continues_inline false spread _ nodes hwf.2 hnodes)
    | _ =>
      rw [valuePlans] at hwf ⊢ <;> try simp
      exact continues_inline first spread _ nodes hwf hnodes

lemma continues_spread (spread : Bool) (previous : Int) :
    ∀ nodes : List Node, ValuesWF (valuePlans spread previous nodes) → Unbroken nodes →
      Continues (spreadPieces (valuePlans spread previous nodes)) := by
  intro nodes hwf h
  match nodes with
  | [] => exact continues_nil
  | node :: nodes =>
    have hnodes : Unbroken nodes := h.mono (List.subset_cons_self _ _)
    cases node with
    | comment start source =>
      rw [valuePlans, ValuesWF] at hwf
      rw [valuePlans, spreadPieces]
      exact (continues_spread spread _ nodes hwf.2 hnodes).comment _ _
    | assignerDereference start name stop =>
      rw [valuePlans, ValuesWF] at hwf
      rw [valuePlans, spreadPieces]
      have hname : Tidy (inParens [wordPiece name]) := AllFlat.tidy (by simp) (by simp [inParens])
      have hrest := continues_spread spread _ nodes hwf.2 hnodes
      exact (hname.behind _).append ((tidy_symbol .comma).continues.append hrest)
    | expression value =>
      rw [valuePlans, ValuesWF] at hwf
      rw [valuePlans, spreadPieces]
      have hvalue := tidy_expr 0 false false value hwf.1 (h.of_mem List.mem_cons_self).children
      have hrest := continues_spread spread _ nodes hwf.2 hnodes
      exact (hvalue.behind _).append ((tidy_symbol .comma).continues.append hrest)
    | _ =>
      rw [valuePlans] at hwf ⊢ <;> try simp
      exact continues_spread spread _ nodes hwf hnodes
end

lemma continues_values (kinds : List TokenKind) {spread : Bool} {previous : Int} {nodes : List Node}
    (hwf : ValuesWF (valuePlans spread previous nodes)) (h : Unbroken nodes) :
    Continues (valuesPieces kinds spread (valuePlans spread previous nodes)) := by
  unfold valuesPieces
  split
  · exact (continues_spread _ _ nodes hwf h).inParens_line.continues
  · exact (continues_inline true _ _ nodes hwf h).guarded kinds

lemma tidy_guarded {n : Node} (hwf : n.exprPlan.WF) (h : Unbroken [n]) : Tidy n.exprPlan.guardedPieces := by
  have hvalue := tidy_expr 0 false false n hwf h
  unfold ExprPlan.guardedPieces guarded
  split
  · exact hvalue.continues.inParens
  · exact hvalue

lemma tidy_target {n : Node} (hwf : n.targetPlan.WF) (h : Unbroken [n]) : Tidy n.targetPlan.pieces := by
  cases n with
  | assignerDereference start name stop => exact AllFlat.tidy (by simp [Node.targetPlan, TargetPlan.pieces]) nofun
  | call name args stop =>
    have hcall := tidy_expr 0 false false (.call name args stop)
    rw [Node.exprPlan] at hcall
    exact hcall hwf.1 h
  | index name subscript stop =>
    have hsubscript := tidy_expr 0 true false subscript hwf.2 (h.below (by simp [Node.children]))
    rw [Node.targetPlan, TargetPlan.pieces, List.append_assoc]
    exact (tidy_names hwf.1).append
      ((tidy_symbol .bracketLeft).append (hsubscript.append (tidy_symbol .bracketRight)))
  | _ => exact tidy_names hwf

lemma continues_targets (first : Bool) {nodes : List Node} (hwf : ∀ n ∈ nodes, n.targetPlan.WF)
    (h : Unbroken nodes) : Continues (targetsPieces first (nodes.map Node.targetPlan)) := by
  induction nodes generalizing first with
  | nil => exact continues_nil
  | cons node nodes ih =>
    obtain ⟨hnode, hnodes⟩ := List.forall_mem_cons.1 hwf
    have hcomma : AllFlat (if first then [] else [symbolPiece .comma]) := by cases first <;> simp
    have htarget := tidy_target hnode (h.of_mem List.mem_cons_self)
    exact (hcomma.continues.append htarget.continues).append
      (ih false hnodes (h.mono (List.subset_cons_self _ _)))

lemma tidy_targets {nodes : List Node} (hne : nodes ≠ []) (hwf : ∀ n ∈ nodes, n.targetPlan.WF)
    (h : Unbroken nodes) : Tidy (targetsPieces true (nodes.map Node.targetPlan)) := by
  obtain ⟨node, nodes, rfl⟩ := List.exists_cons_of_ne_nil hne
  obtain ⟨hnode, hnodes⟩ := List.forall_mem_cons.1 hwf
  exact continues_targets false hnodes (h.mono (List.subset_cons_self _ _)) _
    (tidy_target hnode (h.of_mem List.mem_cons_self))

end Expressions

section Statements

mutual
lemma tidy_statement : ∀ n : Node, n.statementPlan.WF → Unbroken [n] → Tidy n.statementPlan.pieces := by
  intro n hwf h
  cases n with
  | assign start targets values stop =>
    rw [Node.statementPlan, StatementPlan.WF] at hwf
    obtain ⟨⟨hne, htargets⟩, -, -, hvalues⟩ := hwf
    have hfront := tidy_targets (by simpa using hne) (by simpa using htargets)
      (h.below (List.subset_append_left _ _))
    have hback := continues_values [.symbol .parenLeft, .symbol .braceLeft] hvalues
      (h.below (List.subset_append_right _ _))
    rw [Node.statementPlan, StatementPlan.pieces]
    exact hfront.append (hback _ (tidy_symbol .assign))
  | block start body stop =>
    rw [Node.statementPlan, StatementPlan.WF] at hwf
    rw [Node.statementPlan, StatementPlan.pieces]
    exact (continues_entries _ body hwf.2 h.children).inBraces
  | jump start kind stop =>
    cases kind <;> exact .piece (onLine_of_isFlat rfl)
  | expression value =>
    rw [Node.statementPlan, StatementPlan.WF] at hwf
    rw [Node.statementPlan, StatementPlan.pieces]
    exact tidy_guarded hwf h.children
  | forLoop start test bodyStart body stop =>
    have hfor : AllFlat [keywordPiece .forKw] := by simp
    have hbody : Unbroken body := h.below (List.subset_append_right _ _)
    cases test with
    | none =>
      rw [Node.statementPlan, StatementPlan.WF] at hwf
      rw [Node.statementPlan, StatementPlan.pieces]
      exact hfor.before (continues_entries _ body hwf.2 hbody).inBraces
    | some test =>
      rw [Node.statementPlan, StatementPlan.WF] at hwf
      have htest := tidy_guarded hwf.1 (h.below (List.subset_append_left _ _))
      rw [Node.statementPlan, StatementPlan.pieces]
      exact (hfor.before htest).append (continues_entries _ body hwf.2.2 hbody).inBraces
  | ifElse start test thenStart thenBody thenStop elseBody stop =>
    rw [Node.statementPlan, StatementPlan.WF] at hwf
    obtain ⟨htest, ⟨-, hthen⟩, -, helse⟩ := hwf
    have hif : AllFlat [keywordPiece .ifKw] := by simp
    have hfront := (hif.before (tidy_guarded htest (h.below (by simp [Node.children])))).append
      (continues_entries thenStart.line thenBody hthen (h.below (by simp [Node.children]))).inBraces
    have hback := continues_entries thenStop.line elseBody helse (h.below (by simp [Node.children]))
    rw [Node.statementPlan, StatementPlan.pieces]
    split
    · rw [List.append_nil]
      exact hfront
    · have helseKw : AllFlat [keywordPiece .elseKw] := by simp
      exact hfront.append (helseKw.before hback.inBraces)
  | returnValues start values stop =>
    rw [Node.statementPlan, StatementPlan.WF] at hwf
    rw [Node.statementPlan, StatementPlan.pieces]
    exact continues_values _ hwf.2 h.children _ (.piece (onLine_of_isFlat rfl))
  | variableDecl start names type stop =>
    rw [Node.statementPlan, StatementPlan.pieces]
    apply AllFlat.tidy
    · cases type <;> simp
    · simp
  | variableDef start names values stop =>
    rw [Node.statementPlan, StatementPlan.WF] at hwf
    rw [Node.statementPlan, StatementPlan.pieces]
    exact (allFlat_joinedWords .comma names).before
      (continues_values _ hwf.2.2 h.children _ (tidy_symbol .define))
  | _ =>
    rw [Node.statementPlan, StatementPlan.pieces] <;> try simp
    exact continues_nil.inBraces

lemma continues_entries (previous : Int) : ∀ nodes : List Node, EntriesWF (entryPlans previous nodes) →
    Unbroken nodes → Continues (entriesPieces (entryPlans previous nodes)) := by
  intro nodes hwf h
  match nodes with
  | [] => exact continues_nil
  | node :: nodes =>
    have hnodes : Unbroken nodes := h.mono (List.subset_cons_self _ _)
    cases node with
    | importNames start path names stop =>
      rw [entryPlans] at hwf ⊢
      exact continues_entries previous nodes hwf hnodes
    | comment start source =>
      rw [entryPlans, EntriesWF] at hwf
      rw [entryPlans, entriesPieces]
      exact (continues_entries _ nodes hwf.2 hnodes).comment _ _
    | _ =>
      rw [entryPlans, EntriesWF] at hwf <;> try simp
      rw [entryPlans, entriesPieces] <;> try simp
      have hstatement := tidy_statement _ hwf.1 (h.of_mem List.mem_cons_self)
      have hrest := continues_entries _ nodes hwf.2 hnodes
      rw [← List.append_assoc]
      exact (hstatement.behind _).append hrest
end

end Statements

section Lines

/-- Tidy pieces with the end of their last line. -/
def Lines (pieces : List Piece) : Prop := ∃ body, Tidy body ∧ pieces = body ++ [linePiece]

variable {pieces more front : List Piece}

lemma Tidy.lines (h : Tidy pieces) : Lines (pieces ++ [linePiece]) := ⟨pieces, h, rfl⟩

lemma Lines.append (hfront : Lines front) (h : Lines pieces) (blank : Bool) :
    Lines (front ++ ((if blank then [linePiece] else []) ++ pieces)) := by
  obtain ⟨above, habove, rfl⟩ := hfront
  obtain ⟨below, hbelow, rfl⟩ := h
  cases blank with
  | false =>
    have hboth := (Tidy.apart .nextLine habove hbelow).lines
    simpa [Gap.pieces] using hboth
  | true =>
    have hboth := (Tidy.apart .blankLine habove hbelow).lines
    simpa [Gap.pieces] using hboth

lemma Lines.append_lines (hfront : Lines front) (h : Lines pieces) : Lines (front ++ pieces) :=
  hfront.append h false

lemma lines_comment (text : Text) : Lines [commentPiece text, linePiece] := (tidy_comment text).lines

lemma Lines.behind_comments (h : Lines pieces) (comments : List Text) :
    Lines (commentLinePieces comments ++ pieces) := by
  induction comments with
  | nil => exact h
  | cons comment comments ih =>
    rw [commentLinePieces, List.flatMap_cons, List.append_assoc]
    exact (lines_comment comment).append_lines ih

lemma lines_of_comments {comments : List Text} (hne : comments ≠ []) : Lines (commentLinePieces comments) := by
  rw [← List.dropLast_append_getLast hne, commentLinePieces, List.flatMap_append, List.flatMap_singleton]
  exact (lines_comment _).behind_comments comments.dropLast

end Lines

section Definitions

variable {α : Type}

lemma continues_members {item : α → List Piece} (h : ∀ a, Tidy (item a)) (members : List (Member α)) :
    Continues (memberPieces item members) := by
  induction members with
  | nil => exact continues_nil
  | cons member members ih =>
    cases member with
    | comment gap text => exact ih.comment gap text
    | item gap a => exact ((h a).behind gap).append ih

lemma tidy_parameters (spread : Bool) (params : List (Member ParameterPlan)) :
    Tidy (parametersPieces spread params) := by
  have hflat (p : ParameterPlan) : AllFlat p.pieces := by simp [ParameterPlan.pieces]
  unfold parametersPieces
  split
  · exact (continues_members (fun p => AllFlat.tidy (by simp [hflat]) (by simp)) params).inParens_line
  · apply Continues.inParens
    apply AllFlat.continues
    generalize memberItems params = items
    induction items with
    | nil => exact allFlat_nil
    | cons p items ih =>
      cases items with
      | nil => exact hflat p
      | cons next items =>
        rw [inlineParameters]
        split <;> simp [hflat, ih]

lemma continues_results (spread : Bool) (results : List (Member TypeExpr)) :
    Continues (resultsPieces spread results) := by
  unfold resultsPieces
  split
  · exact (continues_members (fun t => AllFlat.tidy (by simp) (by simp)) results).inParens_line.continues
  · split
    · exact (allFlat_type _).continues
    · apply AllFlat.continues
      rw [allFlat_inParens]
      apply allFlat_joined
      intro part hpart
      obtain ⟨type, -, rfl⟩ := List.mem_map.1 hpart
      exact allFlat_type type

lemma allFlat_public (isPublic : Bool) : AllFlat (publicPieces isPublic) := by
  cases isPublic <;> simp [publicPieces]

lemma FunctionPlan.lines {f : FunctionPlan} (h : Continues (entriesPieces f.body)) : Lines f.pieces := by
  have hreceiver : AllFlat (receiverPieces f.receiver) := by
    unfold receiverPieces
    split <;> simp
  have hname : AllFlat (if f.name.isEmpty then [] else [wordPiece f.name]) := by split <;> simp
  have hfront : AllFlat (publicPieces f.isPublic ++ receiverPieces f.receiver ++
      if f.name.isEmpty then [] else [wordPiece f.name]) :=
    allFlat_append.2 ⟨allFlat_append.2 ⟨allFlat_public _, hreceiver⟩, hname⟩
  have hhead := continues_results f.spreadResults f.results _
    (hfront.before (tidy_parameters f.spreadParams f.params))
  exact (hhead.append h.inBraces).lines

lemma lines_member {n : Node} (hn : Parser.IsDefinition n) (h : Unbroken [n]) (tail : List Node)
    (himporting : File.isImporting n = false) : Lines (memberPlan tail n).pieces := by
  cases n with
  | constantDef start isPublic name value stop =>
    have hvalue := tidy_expr 0 false false value hn.2.wf h.children
    have hfront : AllFlat (publicPieces isPublic ++ [wordPiece name, symbolPiece .assign]) := by
      simp [allFlat_public]
    have htail : AllFlat ((tail.head?.map Node.commentText).map commentPiece).toList := by
      cases tail <;> simp
    have hline := (htail.continues _ (hfront.before hvalue)).lines
    simpa [memberPlan, MemberPlan.pieces] using hline
  | functionDef head params results body =>
    have hbody : Unbroken body := h.below (List.subset_append_right _ _)
    have hkept := hbody.mono (functionBody_sublist results body).subset
    exact FunctionPlan.lines (continues_entries _ _ hn.1.body.2 hkept)
  | typeDef start isPublic name fields stop =>
    have hfront : AllFlat (publicPieces isPublic ++ [wordPiece name]) := by simp [allFlat_public]
    have hfield (f : FieldPlan) : Tidy f.pieces := by
      apply AllFlat.tidy
      · unfold FieldPlan.pieces
        split <;> simp
      · simp [FieldPlan.pieces]
    have hfields := continues_members hfield (memberPlans Node.fieldPlan true start.line (withoutImports fields))
    have hline := (hfront.before hfields.inBraces).lines
    simpa [memberPlan, MemberPlan.pieces] using hline
  | importList start imports stop => cases himporting
  | _ => exact hn.elim

end Definitions

section Imports

def CommentedImport.HasNames (g : CommentedImport) : Prop := ∀ c ∈ g.clause, c.path = [] → c.names ≠ []

lemma addName_names {found : List (Text × List Node)} (h : ∀ entry ∈ found, entry.2 ≠ []) (path : Text)
    (name : Node) : ∀ entry ∈ Imports.addName path name found, entry.2 ≠ [] := by
  induction found with
  | nil => simp [Imports.addName]
  | cons entry found ih =>
    obtain ⟨hentry, hfound⟩ := List.forall_mem_cons.1 h
    rw [Imports.addName]
    split
    · exact List.forall_mem_cons.2 ⟨by simp, hfound⟩
    · exact List.forall_mem_cons.2 ⟨hentry, ih hfound⟩

lemma resolveNames_names {providers : Imports.Providers} {names others others' : List Node}
    {found found' : List (Text × List Node)} (h : ∀ entry ∈ found, entry.2 ≠ [])
    (hr : Imports.resolveNames providers names found others = .ok (found', others')) :
    ∀ entry ∈ found', entry.2 ≠ [] := by
  induction names generalizing found others with
  | nil =>
    obtain ⟨rfl, rfl⟩ := Prod.mk.inj (Except.ok.inj hr)
    exact h
  | cons node names ih =>
    cases node with
    | comment start source => exact ih h hr
    | identifier start name stop =>
      rw [Imports.resolveNames] at hr
      split at hr
      · exact ih (addName_names h _ _) hr
      · exact ih h hr
    | _ => cases hr

lemma resolve_hasNames {providers : Imports.Providers} {g : CommentedImport}
    {result : List CommentedImport × List (Nat × Text)} (h : Imports.resolve providers g = .ok result) :
    ∀ r ∈ result.1, r.HasNames := by
  by_cases hpath : ∃ c, g.clause = some c ∧ c.path = []
  · obtain ⟨c, hc, hpath⟩ := hpath
    rw [Imports.resolve, hc] at h
    dsimp only at h
    rw [if_neg (by simp [hpath])] at h
    obtain ⟨found, hr, h⟩ := of_bind_ok h
    obtain ⟨found, others⟩ := found
    have hfound := resolveNames_names (by simp) hr
    have hresolved : ∀ r ∈ found.map fun entry =>
        (⟨[], some { c with path := entry.1, names := entry.2 }, []⟩ : CommentedImport), r.HasNames := by
      intro r hr
      obtain ⟨entry, hentry, rfl⟩ := List.mem_map.1 hr
      intro clause hclause _
      obtain rfl := Option.some.inj hclause
      exact hfound entry hentry
    dsimp only at h
    split at h
    · obtain rfl := Except.ok.inj h
      dsimp only
      generalize found.map _ = resolved at hresolved ⊢
      cases resolved with
      | nil => exact hresolved
      | cons first rest =>
        obtain ⟨hfirst, hrest⟩ := List.forall_mem_cons.1 hresolved
        exact List.forall_mem_cons.2 ⟨hfirst, hrest⟩
    · next hothers =>
      obtain rfl := Except.ok.inj h
      refine mem_append_of hresolved (List.forall_mem_singleton.2 fun clause hclause _ => ?_)
      obtain rfl := Option.some.inj hclause
      simpa using hothers
  · have hown : g.HasNames := fun c hc hp => absurd ⟨c, hc, hp⟩ hpath
    rw [resolve_of_path fun c hc => by simpa using fun hp => hpath ⟨c, hc, hp⟩] at h
    obtain rfl := Except.ok.inj h
    exact List.forall_mem_singleton.2 hown

lemma mergeAll_names {groups : List CommentedImport} (h : ∀ g ∈ groups, g.HasNames) :
    ∀ item ∈ Imports.mergeAll groups, item.path = [] → item.names ≠ [] := by
  unfold Imports.mergeAll
  suffices ∀ items : List Imports.Merged, (∀ item ∈ items, item.path = [] → item.names ≠ []) →
      ∀ item ∈ groups.foldl _ items, item.path = [] → item.names ≠ [] from this [] (by simp)
  intro items hitems
  induction groups generalizing items with
  | nil => exact hitems
  | cons g groups ih =>
    obtain ⟨hg, hgroups⟩ := List.forall_mem_cons.1 h
    rw [List.foldl_cons]
    refine ih hgroups _ ?_
    split
    · exact hitems
    · next clause hc =>
      have hclause := hg clause hc
      clear ih
      induction items with
      | nil => simpa [Imports.mergeInto] using hclause
      | cons item items ih =>
        obtain ⟨hitem, hrest⟩ := List.forall_mem_cons.1 hitems
        rw [Imports.mergeInto]
        split
        · refine List.forall_mem_cons.2 ⟨fun hp => ?_, hrest⟩
          exact List.append_ne_nil_of_left_ne_nil (hitem hp) _
        · exact List.forall_mem_cons.2 ⟨hitem, ih hrest⟩

lemma sortedNames_ne_nil {nodes : List Node} {names : List CommentedName}
    (h : Imports.sortedNames nodes = .ok names) (hne : nodes ≠ []) : names ≠ [] := by
  have hsplit : Commented.split false nodes ≠ [] := by
    intro hnil
    apply hne
    rw [← split_nodes false nodes, hnil, List.flatMap_nil]
  obtain ⟨g, hg⟩ := List.exists_mem_of_ne_nil _ hsplit
  have hsound : g.Sound (fun n => n.isComment = true) fun _ => True :=
    split_sound false (fun _ _ h => h) (fun _ _ _ => trivial) g hg
  obtain ⟨found, hfound, rfl⟩ := sortedNames_eq h
  cases hnode : g.node with
  | none =>
    apply List.append_ne_nil_of_right_ne_nil
    obtain ⟨n, hn⟩ := List.exists_mem_of_ne_nil _ (hsound.nonempty hnode).1
    rw [if_neg]
    · simp
    · have hmem : n ∈ if g.node.isNone then g.head else [] := by
        rw [hnode]
        exact hn
      rw [List.isEmpty_iff]
      exact List.ne_nil_of_mem (List.mem_flatMap.2 ⟨g, hg, hmem⟩)
  | some node =>
    apply List.append_ne_nil_of_left_ne_nil
    obtain ⟨o, ho, hname⟩ := mem_mapM hfound hg
    rw [Imports.nameOf, hnode] at hname
    cases node with
    | identifier start own stop =>
      obtain rfl := Except.ok.inj hname
      obtain ⟨item, hitem, -⟩ := (exists_mergeNames own.text (found.filterMap id) []).2
        (.inr ⟨_, List.mem_filterMap.2 ⟨_, ho, rfl⟩, rfl⟩)
      exact List.ne_nil_of_mem (List.mem_mergeSort.2 hitem)
    | _ => cases hname

lemma Consolidation.entry_names {groups : List Commented} {imports : Imports.Consolidated}
    (steps : Consolidation groups imports) {entry : ImportEntry} (hentry : entry ∈ steps.entries)
    (hp : entry.path = some []) : entry.names ≠ [] := by
  have hnames : ∀ g ∈ steps.resolved.flatMap Prod.fst, g.HasNames := by
    intro g hg
    obtain ⟨result, hresult, hg⟩ := List.mem_flatMap.1 hg
    obtain ⟨source, -, hresolve⟩ := mapM_of_mem steps.resolves hresult
    exact resolve_hasNames hresolve g hg
  obtain ⟨item, hitem, heq⟩ := item_of_entry steps.sorts hentry hp
  obtain ⟨names, hsorted, rfl⟩ := entryOf_eq heq
  exact sortedNames_ne_nil hsorted (mergeAll_names hnames item hitem (Option.some.inj hp))

/-- The words of the language, with paths on one line. -/
def Vocabulary.unbroken : Vocabulary where
  __ := Vocabulary.lexical
  path p := IsPathText p ∧ '\n' ∉ p
  isImportPath h := Parser.isImportPath_of_isPathText h.1

lemma unbroken_named : Vocabulary.unbroken.Named := lexical_named

lemma unbroken_clause {n : Node} (hn : Parser.IsClause n) (h : Unbroken [n]) : Vocabulary.unbroken.Clause n := by
  cases n with
  | importNames start path names stop =>
    refine ⟨⟨hn.1, ?_⟩, hn.2⟩
    cases path with
    | nil => exact List.not_mem_nil
    | cons c path =>
      exact h (.importNames start (c :: path) names stop) (by simp [Node.walkAll, Node.walk]) _ rfl rfl
  | _ => exact hn.elim

lemma unbroken_imports {n : Node} (hn : Parser.IsDefinition n) (h : Unbroken [n]) :
    Vocabulary.unbroken.Imports n := by
  cases n with
  | functionDef head params results body =>
    intro m hm
    have hbody : Unbroken body := h.below (List.subset_append_right _ _)
    exact unbroken_clause (hn.2.2.1 m hm) (hbody.standsIn (standsIn_of_nestedImportsOf body hm).1)
  | typeDef start isPublic name fields stop =>
    exact fun m hm hi => unbroken_clause (hn.2.2.2.2 m hm hi) (h.children.of_mem hm)
  | importList start imports stop =>
    exact fun m hm => (hn m hm).imp_right fun hclause => unbroken_clause hclause (h.children.of_mem hm)
  | importNames => exact hn.elim
  | _ => trivial

lemma NameLine.continues (line : NameLine) : Continues line.pieces := by
  cases line with
  | comment text => exact (tidy_comment text).behind .nextLine
  | name text tail =>
    have hflat : AllFlat ((QualifiedName.ofText text).pieces ++
        symbolPiece .comma :: (tail.map commentPiece).toList) := by
      cases tail <;> simp
    exact (hflat.tidy (by simp)).behind .nextLine

lemma tidy_namesPieces (names : List NameLine) : Tidy (namesPieces names) := by
  unfold namesPieces
  split
  · apply Continues.inParens
    apply AllFlat.continues
    apply allFlat_joined
    intro part hpart
    obtain ⟨name, -, rfl⟩ := List.mem_map.1 hpart
    exact allFlat_name _
  · apply Continues.inParens_line
    exact continues_flatMap fun line _ => line.continues

lemma ImportPlan.lines {entry : ImportPlan} (hpath : '\n' ∉ entry.path)
    (hne : entry.path = [] → entry.names ≠ []) : Lines entry.linePieces := by
  have htail : AllFlat (entry.tail.map commentPiece).toList := by cases entry.tail <;> simp
  have hstring : Tidy [((.string, entry.path) : Piece)] := .piece ⟨by simp, fun _ => hpath⟩
  have hfront : Tidy ((if entry.path.isEmpty then [] else [(.string, entry.path)]) ++
      if entry.names.isEmpty then [] else namesPieces entry.names) := by
    cases hp : entry.path.isEmpty with
    | true =>
      have hnames := hne (List.isEmpty_iff.1 hp)
      rw [if_pos rfl, if_neg (by simpa using hnames)]
      exact tidy_namesPieces entry.names
    | false =>
      rw [if_neg Bool.false_ne_true]
      split
      · rw [List.append_nil]
        exact hstring
      · exact hstring.append (tidy_namesPieces entry.names)
  exact (htail.continues _ hfront).lines

lemma lines_imports {entries : List ImportPlan} (h : ∀ entry ∈ entries, Lines entry.linePieces)
    (leftovers : List Text) (previous : Option Text) {front : List Piece} (hfront : Lines front) :
    Lines (front ++ importsPieces leftovers previous entries) := by
  induction entries generalizing previous front with
  | nil =>
    rw [importsPieces]
    split
    · rw [List.append_nil]
      exact hfront
    · next hne => exact hfront.append (lines_of_comments (by simpa using hne)) true
  | cons entry entries ih =>
    obtain ⟨hentry, hentries⟩ := List.forall_mem_cons.1 h
    have hlines := hfront.append (hentry.behind_comments entry.head)
      (previous.any fun path => pathGroup path ≠ pathGroup entry.path)
    rw [importsPieces, ← List.append_assoc]
    apply ih hentries
    rw [ImportPlan.pieces, List.append_assoc]
    exact hlines

lemma lines_block {entries : List ImportPlan} (h : ∀ entry ∈ entries, Lines entry.linePieces)
    (leftovers : List Text) : Lines (MemberPlan.pieces (.imports entries leftovers)) := by
  have hopen : Tidy [keywordPiece .importKw, symbolPiece .braceLeft] := AllFlat.tidy (by simp) (by simp)
  obtain ⟨body, hbody, heq⟩ := lines_imports h leftovers none hopen.lines
  have hclose := ((tidy_symbol .braceRight).behind .nextLine body hbody).lines
  have hpieces : MemberPlan.pieces (.imports entries leftovers) =
      [keywordPiece .importKw, symbolPiece .braceLeft] ++ [linePiece] ++
        importsPieces leftovers none entries ++ [symbolPiece .braceRight, linePiece] := by
    simp [MemberPlan.pieces]
  rw [hpieces, heq]
  simpa [Gap.pieces] using hclose

end Imports

section Groups

def GroupPlan.HasLines (group : GroupPlan) : Prop :=
  Lines (commentLinePieces group.head ++ group.member.pieces)

lemma blockPlan_hasLines {imports : Imports.Consolidated} {groups : List Commented}
    (steps : Consolidation groups imports) {sorted : List ImportEntry} {leftovers : List Node}
    (h : imports.block.Sound .unbroken sorted leftovers) (gap : Bool) : (imports.block.plan gap).HasLines := by
  rw [blockPlan_eq h, GroupPlan.HasLines]
  apply Lines.behind_comments
  apply lines_block
  intro plan hplan
  obtain ⟨entry, hentry, rfl⟩ := List.mem_map.1 hplan
  have hsound := h.entries.sorted entry hentry
  obtain ⟨path, hpath, -, hline⟩ := hsound.path
  have hmem : entry ∈ steps.entries := by
    rw [← show imports.block.entries = steps.entries from congrArg _ steps.block, h.entries.entries]
    exact List.mem_append_left _ hentry
  apply ImportPlan.lines
  · rw [ImportEntry.plan, hpath]
    exact hline
  · intro hnil
    rw [ImportEntry.plan, hpath] at hnil
    have hnames := steps.entry_names hmem (hpath.trans (congrArg some hnil))
    obtain ⟨name, names, heq⟩ := List.exists_cons_of_ne_nil hnames
    rw [ImportEntry.plan, heq, List.flatMap_cons]
    exact List.append_ne_nil_of_left_ne_nil (lines_ne_nil unbroken_named (hsound.names name (by simp [heq]))) _

lemma Commented.plan_hasLines {group : Commented} (hread : group.Read) (h : ∀ n ∈ group.node, Unbroken [n])
    (himporting : group.node.any File.isImporting = false) (gap : Bool) : (group.plan gap).HasLines := by
  rw [Commented.plan, GroupPlan.HasLines]
  cases hnode : group.node with
  | none =>
    rw [Option.map_none, Option.getD_none, MemberPlan.pieces, List.append_nil]
    exact lines_of_comments (by simpa using (hread.nonempty hnode).1)
  | some node =>
    rw [hnode] at himporting
    apply Lines.behind_comments
    exact lines_member (hread.node node hnode).1 (h node hnode) group.tail himporting

/-- All groups have lines, and no blank line stands in front of the first one. -/
lemma groupPlans_hasLines {imports : Imports.Consolidated} (hb : ∀ gap, (imports.block.plan gap).HasLines)
    (index : Nat) (previous : Option (Option Node)) {groups : List Commented}
    (h : ∀ g ∈ groups, g.node.any File.isImporting = false → ∀ gap, (g.plan gap).HasLines) :
    (∀ plan ∈ groupPlans imports index previous groups, plan.HasLines) ∧
      (previous = none → ∀ plan ∈ (groupPlans imports index previous groups).head?, plan.gap = false) := by
  induction groups generalizing index previous with
  | nil => simp [groupPlans]
  | cons group groups ih =>
    obtain ⟨hown, hgroups⟩ := List.forall_mem_cons.1 h
    rw [groupPlans]
    dsimp only
    split
    · exact ih _ _ hgroups
    · next hwritten =>
      have hrest := (ih (index + 1) (some group.node) hgroups).1
      split
      · next hhere =>
        have hplain : group.node.any File.isImporting = false := by simp_all
        refine ⟨List.forall_mem_cons.2 ⟨hown hplain _, hrest⟩, ?_⟩
        rintro rfl plan hplan
        obtain rfl := Option.some.inj hplan
        rfl
      · refine ⟨List.forall_mem_cons.2 ⟨hb _, ?_⟩, ?_⟩
        · split
          · exact hrest
          · next hplain => exact List.forall_mem_cons.2 ⟨hown (by simpa using hplain) _, hrest⟩
        · rintro rfl plan hplan
          obtain rfl := Option.some.inj hplan
          rfl

lemma IsFile.groups_hasLines {nodes : List Node} (h : IsFile nodes) (hu : Unbroken nodes) :
    (∀ plan ∈ filePlan nodes, plan.HasLines) ∧ ∀ plan ∈ (filePlan nodes).head?, plan.gap = false := by
  have hread := h.split_read true
  have hsound : ∀ g ∈ Commented.split true nodes,
      g.Sound Vocabulary.unbroken.comment Vocabulary.unbroken.Imports := by
    intro g hg
    obtain ⟨hhead, htail, hnode, hne⟩ := hread g hg
    refine ⟨hhead, htail, fun n hn => ⟨?_, (hnode n hn).2⟩, hne⟩
    exact unbroken_imports (hnode n hn).1 (hu.of_mem (mem_of_split hg hn))
  obtain ⟨imports, hc, steps, sorted, hb⟩ := DpLang.consolidate_ok hsound
  rw [filePlan, hc]
  have hlines := groupPlans_hasLines (blockPlan_hasLines steps hb) 0 none
    fun g hg => Commented.plan_hasLines (hread g hg) fun n hn => hu.of_mem (mem_of_split hg hn)
  exact ⟨hlines.1, hlines.2 rfl⟩

lemma lines_file {groups : List GroupPlan} (h : ∀ group ∈ groups, group.HasLines)
    (hfirst : ∀ group ∈ groups.head?, group.gap = false) (hne : groups ≠ []) : Lines (filePieces groups) := by
  have hall {groups : List GroupPlan} (h : ∀ group ∈ groups, group.HasLines) {front : List Piece}
      (hfront : Lines front) : Lines (front ++ filePieces groups) := by
    induction groups generalizing front with
    | nil =>
      rw [filePieces, List.flatMap_nil, List.append_nil]
      exact hfront
    | cons group groups ih =>
      obtain ⟨hgroup, hgroups⟩ := List.forall_mem_cons.1 h
      have hlines := ih hgroups (hfront.append hgroup group.gap)
      simpa only [filePieces, List.flatMap_cons, GroupPlan.pieces, List.append_assoc] using hlines
  obtain ⟨group, groups, rfl⟩ := List.exists_cons_of_ne_nil hne
  obtain ⟨hgroup, hgroups⟩ := List.forall_mem_cons.1 h
  have hlines := hall hgroups hgroup
  rw [filePieces, List.flatMap_cons, GroupPlan.pieces, hfirst group rfl]
  exact hlines

end Groups

end DpLang
