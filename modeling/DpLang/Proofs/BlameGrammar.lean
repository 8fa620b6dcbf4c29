import DpLang.Grammar.Declaration
import DpLang.Proofs.Blame

/-!
# Where reports on names, types, expressions and statements point

Every parser of the grammar up to statements reports at places that are not in front of it.
-/

namespace DpLang.Parser

variable {tokens : List Token}

section Names

lemma blames_nameParts (fuel : Nat) : Blames tokens (nameParts fuel) := by
  induction fuel with
  | zero => exact blames_stall
  | succ fuel ih =>
    refine blames_take.bind fun word => blames_skip.bind fun more => ?_
    cases more with
    | true => exact ih.bind fun _ => blames_pure _
    | false => exact blames_pure _

lemma blames_qualifiedName : Blames tokens qualifiedName :=
  blames_skip.bind fun _ => (blames_bounded blames_nameParts).bind fun _ => blames_pure _

lemma blames_identifier : Blames tokens identifier :=
  blames_here.bind fun _ => blames_qualifiedName.bind fun _ => blames_lastStop.bind fun _ =>
    blames_pure _

lemma blames_fieldNames (fuel : Nat) : Blames tokens (fieldNames fuel) := by
  induction fuel with
  | zero => exact blames_stall
  | succ fuel ih =>
    refine blames_skip.bind fun more => ?_
    cases more with
    | true => exact blames_take.bind fun word => ih.bind fun _ => blames_pure _
    | false => exact blames_pure _

lemma blames_selectorOnly : Blames tokens selectorOnly := by
  refine blames_here.bind fun start => blames_take.bind fun word => ?_
  refine (blames_bounded blames_fieldNames).bind fun names => ?_
  exact blames_lastStop.bind fun stop => blames_pure _

lemma blames_selector : Blames tokens selector := by
  refine blames_selectorOnly.bind fun name => blames_peekKind?.bind fun kind => ?_
  split
  · exact blames_rejectHere (by simp)
  · exact blames_rejectHere (by simp)
  · exact blames_rejectHere (by simp)
  · exact blames_pure _

lemma blames_typeFlags : Blames tokens typeFlags :=
  blames_skip.bind fun _ => blames_skip.bind fun _ => blames_skip.bind fun _ =>
    blames_skip.bind fun _ => blames_pure _

lemma blames_typeWithin (fuel : Nat) : Blames tokens (typeWithin fuel) := by
  induction fuel with
  | zero => exact blames_stall
  | succ fuel ih =>
    refine blames_typeFlags.bind fun flags => blames_skip.bind fun array => ?_
    cases array with
    | true => exact ih.bind fun item => blames_take.bind fun _ => blames_pure _
    | false => exact blames_qualifiedName.bind fun _ => blames_pure _

lemma blames_typeSpec : Blames tokens typeSpec := by
  refine blames_here.bind fun start => (blames_bounded blames_typeWithin).bind fun type => ?_
  exact blames_lastStop.bind fun stop => blames_pure _

end Names

section Operators

variable {atomic : Parser Node} {multiline : Bool}

lemma blames_skipNewlinesWithin (fuel : Nat) : Blames tokens (skipNewlinesWithin fuel) := by
  induction fuel with
  | zero => exact blames_pure ()
  | succ fuel ih =>
    refine blames_skip.bind fun passed => ?_
    cases passed with
    | true => exact ih
    | false => exact blames_pure ()

lemma blames_skipNewlinesIf : Blames tokens (skipNewlinesIf multiline) := by
  cases multiline with
  | true => exact blames_bounded blames_skipNewlinesWithin
  | false => exact blames_pure ()

lemma blames_infixOperator? : Blames tokens infixOperator? := by
  refine blames_peekKind?.bind fun kind => ?_
  split
  · next symbol =>
    cases BinaryOp.ofSymbol? symbol with
    | none => exact blames_pure none
    | some op => exact blames_skip.bind fun _ => blames_pure (some op)
  · exact blames_pure none

/-- Where there is no such operator, the cursor goes back to where it was. -/
lemma blames_tightOperator? : Blames tokens (tightOperator? multiline) := by
  intro lo c hc
  have h : Blames tokens (skipNewlinesIf multiline >>= fun _ => infixOperator?) :=
    blames_skipNewlinesIf.bind fun _ => blames_infixOperator?
  replace h := h lo hc
  rw [tightOperator?_run]
  generalize (skipNewlinesIf multiline >>= fun _ => infixOperator?) c = x at h
  cases h with
  | stalled => exact .stalled
  | rejected hr => exact .rejected hr
  | @done found d hd _ =>
    cases found with
    | none => exact .done hc trivial
    | some op =>
      dsimp only
      split_ifs
      · exact .done hd trivial
      · exact .done hc trivial

lemma blames_operandAfter (h : Blames tokens atomic) (left : Node) (fuel : Nat) :
    Blames tokens (operandAfter atomic multiline left fuel) := by
  induction fuel generalizing left with
  | zero => exact blames_stall
  | succ fuel ih =>
    refine blames_tightOperator?.bind fun op => ?_
    cases op with
    | none => exact blames_pure left
    | some op =>
      refine blames_skipNewlinesIf.bind fun _ => h.bind fun right => ?_
      exact blames_lastStop.bind fun stop => ih _

lemma blames_operandOf (h : Blames tokens atomic) : Blames tokens (operandOf atomic multiline) :=
  h.bind fun first => blames_bounded (blames_operandAfter h first)

lemma blames_chainAfter {operand : Parser Node} (h : Blames tokens operand)
    (before : Option (Node × BinaryOp)) (fuel : Nat) :
    Blames tokens (chainAfter operand multiline fuel before) := by
  induction fuel generalizing before with
  | zero => exact blames_stall
  | succ fuel ih =>
    rw [chainAfter_succ]
    refine blames_skipNewlinesIf.bind fun _ => h.bind fun right => blames_lastStop.bind fun stop => ?_
    refine blames_skipNewlinesIf.bind fun _ => blames_infixOperator?.bind fun op => ?_
    cases op with
    | none => exact blames_pure _
    | some op =>
      dsimp only
      split_ifs
      · exact blames_rejectHereBind (by simp)
      · exact ih _

lemma blames_expressionOf (h : Blames tokens atomic) : Blames tokens (expressionOf atomic multiline) :=
  blames_bounded (blames_chainAfter (blames_operandOf h) none)

lemma blames_assignerDereference? : Blames tokens assignerDereference? := by
  intro lo c hc
  rw [assignerDereference?_run]
  obtain ⟨_, d, hd, h1, -⟩ | hd := skim_within (.symbol .parenLeft) hc
  swap
  · rw [hd]
    exact .done hc trivial
  rw [hd]
  dsimp only
  obtain ⟨name, e, he, h2, -⟩ | he := skim_within .word h1
  swap
  · rw [he]
    exact .done hc trivial
  rw [he]
  dsimp only
  obtain ⟨_, f, hf, h3, -⟩ | hf := skim_within (.symbol .parenRight) h2
  · rw [hf]
    exact .done h3 trivial
  · rw [hf]
    exact .done hc trivial

end Operators

section Expressions

variable {atomic : Parser Node}

lemma blames_listValueOf (h : Blames tokens atomic) : Blames tokens (listValueOf atomic) := by
  refine blames_assignerDereference?.bind fun found => ?_
  cases found with
  | some node => exact blames_pure node
  | none =>
    refine (blames_expressionOf h).bind fun value => blames_skip.bind fun comma => ?_
    cases comma with
    | true => exact blames_pure _
    | false => exact blames_unless (by simp)

lemma blames_callWith {arguments : Parser (List Node)} (h : Blames tokens arguments) :
    Blames tokens (callWith arguments) :=
  blames_selectorOnly.bind fun _ => blames_take.bind fun _ => h.bind fun _ =>
    blames_lastStop.bind fun _ => blames_pure _

lemma blames_callOf (h : Blames tokens atomic) : Blames tokens (callOf atomic) :=
  blames_callWith (blames_membersUntil
    ⟨blames_comma, blames_comment.member, (blames_listValueOf h).member, blames_newline⟩)

lemma blames_targetCallOf (h : Blames tokens atomic) : Blames tokens (targetCallOf atomic) :=
  blames_callWith (blames_membersUntil ⟨blames_comma, (blames_listValueOf h).member, blames_newline⟩)

lemma blames_indexOf (h : Blames tokens atomic) : Blames tokens (indexOf atomic) := by
  refine blames_selectorOnly.bind fun name => blames_take.bind fun _ => ?_
  refine (blames_expressionOf h).bind fun subscript => blames_take.bind fun _ => ?_
  exact blames_lastStop.bind fun stop => blames_pure _

lemma blames_prefixedOf (h : Blames tokens atomic) {kind : TokenKind} {op : PrefixOp} {message : Text} :
    Blames tokens (prefixedOf atomic kind op message) :=
  blames_take.bind fun _ => h.bind fun _ => blames_lastStop.bind fun _ => blames_pure _

lemma blames_unaryOf (h : Blames tokens atomic) : Blames tokens (unaryOf atomic) := by
  refine blames_bind (fun _ => blamesWith_here) fun lo start hstart => ?_
  refine (blames_peekKind? lo).bind fun kind _ => ?_
  dsimp only
  split
  · exact blamesWith_reject hstart (by simp)
  · refine (blames_skip lo).bind fun _ _ => (h lo).bind fun operand _ => ?_
    exact (blames_lastStop lo).bind fun stop _ => blames_pure _ lo

lemma blames_literal {kind : TokenKind} {literalKind : LiteralKind} {message : Text} :
    Blames tokens (literal kind literalKind message) :=
  blames_take.bind fun _ => blames_lastStop.bind fun _ => blames_pure _

lemma blames_boolean {keyword : Keyword} {value : Bool} {message : Text} :
    Blames tokens (boolean keyword value message) :=
  blames_take.bind fun _ => blames_lastStop.bind fun _ => blames_pure _

lemma blames_nil : Blames tokens nil :=
  blames_take.bind fun _ => blames_lastStop.bind fun _ => blames_pure _

lemma blames_zero : Blames tokens zero :=
  blames_take.bind fun _ => blames_take.bind fun _ => blames_lastStop.bind fun _ => blames_pure _

lemma blames_parenthesizedOf (h : Blames tokens atomic) : Blames tokens (parenthesizedOf atomic) := by
  refine blames_take.bind fun _ => (blames_expressionOf h).bind fun value => ?_
  exact blames_take.bind fun _ => blames_pure value

lemma blames_atomicOf (h : Blames tokens atomic) : Blames tokens (atomicOf atomic) := by
  apply blames_firstOf
  exact ⟨blames_prefixedOf h, blames_callOf h, blames_literal, blames_prefixedOf h, blames_boolean,
    blames_indexOf h, blames_literal, blames_nil, blames_parenthesizedOf h, blames_prefixedOf h,
    blames_selector, blames_literal, blames_boolean, blames_unaryOf h, blames_zero⟩

lemma blames_atomicWithin (fuel : Nat) : Blames tokens (atomicWithin fuel) := by
  induction fuel with
  | zero => exact blames_stall
  | succ fuel ih => exact blames_atomicOf ih

lemma blames_atomic : Blames tokens Parser.atomic := blames_bounded blames_atomicWithin

lemma blames_expression : Blames tokens (expression false) := blames_expressionOf blames_atomic

lemma blames_listValue : Blames tokens listValue := blames_listValueOf blames_atomic

end Expressions

section Imports

lemma blames_importedNames : Blames tokens importedNames := by
  refine blames_skip.bind fun parenthesized => ?_
  cases parenthesized with
  | true =>
    exact blames_membersUntil
      ⟨blames_comma, blames_comment.member, blames_identifier.member, blames_newline⟩
  | false => exact blames_nakedMembers ⟨blames_comma, blames_identifier.member⟩

lemma blames_importedPath : Blames tokens importedPath := by
  refine blames_bind (fun _ => blamesWith_skim) fun lo found hfound => ?_
  cases found with
  | none => exact blames_pure [] lo
  | some token =>
    dsimp only
    split_ifs
    · exact blamesWith_rejectBind (hfound token rfl) (by simp)
    · exact blames_pure _ lo

lemma blames_importWithKeyword : Blames tokens importWithKeyword := by
  refine blames_bind (fun _ => blamesWith_here) fun lo start hstart => ?_
  refine (blames_skip lo).bind fun found _ => ?_
  cases found with
  | false => exact blamesWith_rejectBind hstart (by simp)
  | true =>
    refine (blames_importedPath lo).bind fun path _ => (blames_importedNames lo).bind fun names _ => ?_
    exact (blames_lastStop lo).bind fun stop _ => blames_pure _ lo

lemma blames_importEntry : Blames tokens importEntry := by
  refine blames_here.bind fun start => blames_skip.bind fun _ => ?_
  refine blames_importedPath.bind fun path => blames_importedNames.bind fun names => ?_
  dsimp only
  split_ifs
  · exact blames_rejectHereBind (by simp)
  · exact blames_lastStop.bind fun stop => blames_pure _

end Imports

section Statements

lemma blames_nakedValues : Blames tokens nakedValues :=
  blames_nakedMembers ⟨blames_comma, blames_listValue.member⟩

lemma blames_delimitedValues : Blames tokens delimitedValues := by
  have hvalues : Blames tokens valuesUntilParen := blames_membersUntil
    ⟨blames_comma, blames_comment.member, blames_listValue.member, blames_newline⟩
  exact hvalues.bind fun values => blames_unless (by simp)

lemma blames_values : Blames tokens values := by
  refine blames_skip.bind fun parenthesized => ?_
  cases parenthesized with
  | true => exact blames_delimitedValues
  | false => exact blames_nakedValues

lemma blames_assignerDereference : Blames tokens assignerDereference := by
  refine blames_assignerDereference?.bind fun found => ?_
  cases found with
  | some node => exact blames_pure node
  | none => exact blames_rejectHere (by simp)

lemma blames_targets : Blames tokens targets :=
  blames_nakedMembers ⟨blames_assignerDereference.member, (blames_targetCallOf blames_atomic).member,
    blames_comma, (blames_indexOf blames_atomic).member, blames_selector.member⟩

lemma blames_assign : Blames tokens assign := by
  refine blames_targets.bind fun targets => ?_
  cases targets with
  | nil => exact blames_rejectHere (by simp)
  | cons first targets =>
    refine blames_take.bind fun _ => blames_values.bind fun values => ?_
    cases values with
    | nil => exact blames_rejectHereBind (by simp)
    | cons value values => exact blames_lastStop.bind fun stop => blames_pure _

lemma blames_jump {keyword : Keyword} {kind : Jump} {message : Text} :
    Blames tokens (jump keyword kind message) :=
  blames_take.bind fun _ => blames_lastStop.bind fun _ => blames_pure _

lemma blames_expressionStatement : Blames tokens expressionStatement :=
  blames_expression.bind fun _ => blames_unless (by simp)

lemma blames_returnValues : Blames tokens returnValues := by
  refine blames_take.bind fun _ => Blames.bind (blames_firstOf ⟨blames_nakedValues, ?_⟩) fun values => ?_
  · exact blames_take.bind fun _ => blames_delimitedValues
  · exact blames_lastStop.bind fun stop => blames_pure _

lemma blames_variableNames : Blames tokens variableNames :=
  blames_nakedMembers ⟨blames_comma, (blames_take.bind fun _ => blames_pure _).member⟩

lemma blames_variableDecl : Blames tokens variableDecl := by
  refine blames_here.bind fun start => blames_variableNames.bind fun names => ?_
  refine blames_take.bind fun _ => blames_skip.bind fun auto => ?_
  cases auto with
  | true => exact blames_lastStop.bind fun stop => blames_pure _
  | false => exact blames_typeSpec.bind fun type => blames_lastStop.bind fun stop => blames_pure _

lemma blames_variableDef : Blames tokens variableDef := by
  refine blames_here.bind fun start => blames_variableNames.bind fun names => ?_
  refine blames_take.bind fun _ => blames_values.bind fun values => ?_
  exact blames_lastStop.bind fun stop => blames_pure _

variable {statements : Parser (List Node)}

lemma blames_blockOf (h : Blames tokens statements) : Blames tokens (blockOf statements) :=
  blames_take.bind fun _ => h.bind fun _ => blames_lastStop.bind fun _ => blames_pure _

lemma blames_forLoopOf (h : Blames tokens statements) : Blames tokens (forLoopOf statements) := by
  refine blames_take.bind fun keyword => blames_skim.bind fun opening => ?_
  cases opening with
  | some opening => exact h.bind fun body => blames_lastStop.bind fun stop => blames_pure _
  | none =>
    refine blames_expression.bind fun test => blames_take.bind fun opening => ?_
    exact h.bind fun body => blames_lastStop.bind fun stop => blames_pure _

lemma blames_ifElseOf (h : Blames tokens statements) : Blames tokens (ifElseOf statements) := by
  refine blames_take.bind fun keyword => blames_expression.bind fun test => ?_
  refine blames_take.bind fun opening => h.bind fun thenBody => ?_
  refine blames_lastStop.bind fun thenStop => blames_skip.bind fun found => ?_
  cases found with
  | true =>
    refine blames_take.bind fun _ => h.bind fun elseBody => ?_
    exact blames_lastStop.bind fun stop => blames_pure _
  | false => exact blames_lastStop.bind fun stop => blames_pure _

lemma blames_statementsOf (h : Blames tokens statements) : Blames tokens (statementsOf statements) := by
  apply blames_membersUntil
  exact ⟨blames_assign.member, (blames_blockOf h).member, blames_jump.member, blames_comment.member,
    blames_jump.member, blames_expressionStatement.member, (blames_forLoopOf h).member,
    (blames_ifElseOf h).member, blames_importWithKeyword.member, blames_newline,
    blames_returnValues.member, blames_semicolon, blames_variableDecl.member,
    blames_variableDef.member⟩

lemma blames_statementsWithin (fuel : Nat) : Blames tokens (statementsWithin fuel) := by
  induction fuel with
  | zero => exact blames_stall
  | succ fuel ih => exact blames_statementsOf ih

lemma blames_statements : Blames tokens Parser.statements := blames_bounded blames_statementsWithin

end Statements

end DpLang.Parser
