import DpLang.Proofs.ReadingFile

/-!
# Plans within trees

Every expression, statement and definition that stands anywhere in a tree with a well-formed plan
has a well-formed plan itself.
-/

namespace DpLang

def Node.isPart : Node → Bool
  | .assignerDereference _ _ _ => true
  | .comment _ _ => true
  | .field _ _ _ _ _ => true
  | .identifier _ _ _ => true
  | .importNames _ _ _ _ => true
  | .parameter _ _ _ _ => true
  | .typeSpec _ => true
  | _ => false

/-- The node has a well-formed plan, or is part of the plan of the node around it. -/
inductive Node.Planned (n : Node) : Prop where
  | expr (h : n.isExpr = true) (hwf : n.exprPlan.WF)
  | statement (h : n.isStatement = true) (hwf : n.statementPlan.WF)
  | definition (h : Parser.IsDefinition n)
  | part (h : n.isPart = true)

section Lists

variable {n : Node} {nodes others : List Node}

lemma Node.Planned.exprPlan_wf (h : n.Planned) (he : n.isExpr = true) : n.exprPlan.WF := by
  cases h with
  | expr _ hwf => exact hwf
  | statement hs _ => cases n <;> simp [Node.isExpr, Node.isStatement] at he hs
  | definition hd => cases n <;> first | exact hd.elim | simp [Node.isExpr] at he
  | part hp => cases n <;> simp [Node.isExpr, Node.isPart] at he hp

section Kinds

variable (h : n.Planned)

include h

lemma Node.Planned.of_statement (he : n.isExpr = false) (hd : ¬Parser.IsDefinition n)
    (hp : n.isPart = false) : n.isStatement = true ∧ n.statementPlan.WF := by
  cases h with
  | expr h _ => exact Bool.noConfusion (he.symm.trans h)
  | statement hs hwf => exact ⟨hs, hwf⟩
  | definition h => exact absurd h hd
  | part h => exact Bool.noConfusion (hp.symm.trans h)

lemma Node.Planned.of_definition (he : n.isExpr = false) (hs : n.isStatement = false)
    (hp : n.isPart = false) : Parser.IsDefinition n := by
  cases h with
  | expr h _ => exact Bool.noConfusion (he.symm.trans h)
  | statement h _ => exact Bool.noConfusion (hs.symm.trans h)
  | definition hd => exact hd
  | part h => exact Bool.noConfusion (hp.symm.trans h)

lemma Node.Planned.of_expr (hs : n.isStatement = false) (hd : ¬Parser.IsDefinition n)
    (hp : n.isPart = false) : n.isExpr = true ∧ n.exprPlan.WF := by
  cases h with
  | expr he hwf => exact ⟨he, hwf⟩
  | statement h _ => exact Bool.noConfusion (hs.symm.trans h)
  | definition h => exact absurd h hd
  | part h => exact Bool.noConfusion (hp.symm.trans h)

end Kinds

def PlansWF (nodes : List Node) : Prop := ∀ n ∈ nodes, n.Planned

lemma plansWF_nil : PlansWF [] := fun _ hn => absurd hn List.not_mem_nil

lemma PlansWF.cons (hn : n.Planned) (h : PlansWF nodes) : PlansWF (n :: nodes) :=
  List.forall_mem_cons.2 ⟨hn, h⟩

lemma PlansWF.append (h : PlansWF nodes) (ho : PlansWF others) : PlansWF (nodes ++ others) :=
  List.forall_mem_append.2 ⟨h, ho⟩

lemma plansWF_walkAll (h : ∀ n ∈ nodes, PlansWF n.walk) : PlansWF (Node.walkAll nodes) := by
  induction nodes with
  | nil => exact plansWF_nil
  | cons n nodes ih =>
    rw [Node.walkAll]
    exact (h n List.mem_cons_self).append (ih fun k hk => h k (List.mem_cons_of_mem n hk))

lemma plansWF_leaf (hwalk : n.walk = [n]) (hn : n.Planned) : PlansWF n.walk := by
  rw [hwalk]
  exact plansWF_nil.cons hn

lemma plansWF_comment (start : Position) (source : Text) :
    PlansWF (Node.comment start source).walk := plansWF_leaf rfl (.part rfl)

lemma plansWF_typeSpecs (types : List TypeSpec) : PlansWF (types.map Node.typeSpec) := by
  intro n hn
  obtain ⟨type, -, rfl⟩ := List.mem_map.1 hn
  exact .part rfl

end Lists

section Expressions

lemma planned_selector {s : Selector} (h : (ExprPlan.selector s.names).WF) :
    (Node.selector s).Planned :=
  .expr rfl (by rw [Node.exprPlan]; exact h)

lemma planned_expression {value : Node} (h : value.isExpr = true) (hwf : value.exprPlan.WF) :
    (Node.expression value).Planned := by
  apply Node.Planned.statement
  · rw [Node.isStatement]; exact h
  · rw [Node.statementPlan, StatementPlan.WF]; exact hwf

lemma plansWF_dereference (start : Position) (name : Text) (stop : Position) :
    PlansWF (Node.assignerDereference start name stop).walk :=
  plansWF_leaf rfl (.part rfl)

mutual
lemma plansWF_expr : ∀ e : Node, e.isExpr = true → e.exprPlan.WF → PlansWF e.walk := by
  intro e he hwf
  have hself := Node.Planned.expr he hwf
  cases e with
  | prefixed start op operand stop =>
    have hoperand : operand.exprPlan.WF := by
      cases op with
      | unary op =>
        cases op with
        | identity => rw [Node.exprPlan] at hwf; exact hwf
        | _ =>
          rw [Node.exprPlan, ExprPlan.WF] at hwf
          · exact hwf.2
          · simp
      | _ =>
        rw [Node.exprPlan, ExprPlan.WF] at hwf
        · exact hwf.2
        · simp
    rw [Node.walk]
    refine .cons hself (plansWF_expr operand ?_ hoperand)
    rw [Node.isExpr] at he
    exact he
  | binary left op right stop =>
    rw [Node.walk]
    refine .cons hself ?_
    rw [Node.isExpr, Bool.and_eq_true] at he
    rw [Node.exprPlan, ExprPlan.WF] at hwf
    exact (plansWF_expr left he.1 hwf.1).append (plansWF_expr right he.2 hwf.2)
  | call name args stop =>
    rw [Node.walk]
    refine .cons hself ?_
    rw [Node.isExpr] at he
    rw [Node.exprPlan, ExprPlan.WF] at hwf
    exact .cons (planned_selector hwf.1) (plansWF_values _ _ args he hwf.2.2)
  | index name subscript stop =>
    rw [Node.walk]
    refine .cons hself ?_
    rw [Node.isExpr] at he
    rw [Node.exprPlan, ExprPlan.WF] at hwf
    exact .cons (planned_selector hwf.1) (plansWF_expr subscript he hwf.2)
  | boolean start value stop => exact .cons hself plansWF_nil
  | literal start kind source stop => exact .cons hself plansWF_nil
  | nil start stop => exact .cons hself plansWF_nil
  | selector s => exact .cons hself plansWF_nil
  | zero start stop => exact .cons hself plansWF_nil
  | _ => simp [Node.isExpr] at he

lemma plansWF_values (spread : Bool) (previous : Int) : ∀ nodes : List Node, areValues nodes = true →
    ValuesWF (valuePlans spread previous nodes) → PlansWF (Node.walkAll nodes) := by
  intro nodes hvalues hwf
  match nodes with
  | [] =>
    rw [Node.walkAll]
    exact plansWF_nil
  | node :: nodes =>
    rw [Node.walkAll]
    cases node with
    | comment start source =>
      rw [areValues] at hvalues
      rw [valuePlans, ValuesWF] at hwf
      exact (plansWF_comment start source).append (plansWF_values spread _ nodes hvalues hwf.2)
    | assignerDereference start name stop =>
      rw [areValues] at hvalues
      rw [valuePlans, ValuesWF] at hwf
      exact (plansWF_dereference start name stop).append (plansWF_values spread _ nodes hvalues hwf.2)
    | expression value =>
      rw [areValues, Bool.and_eq_true] at hvalues
      rw [valuePlans, ValuesWF] at hwf
      rw [Node.walk]
      have hvalue := plansWF_expr value hvalues.1 hwf.1
      exact (hvalue.cons (planned_expression hvalues.1 hwf.1)).append
        (plansWF_values spread _ nodes hvalues.2 hwf.2)
    | _ => simp [areValues] at hvalues
end

end Expressions

section Statements

lemma plansWF_target {n : Node} (h : n.isTarget = true) (hwf : n.targetPlan.WF) : PlansWF n.walk := by
  cases n with
  | assignerDereference start name stop => exact plansWF_dereference start name stop
  | call name args stop =>
    refine plansWF_expr _ ?_ ?_
    · rw [Node.isExpr]; exact h
    · rw [Node.exprPlan]; exact hwf.1
  | index name subscript stop =>
    refine plansWF_expr _ ?_ ?_
    · rw [Node.isExpr]; exact h
    · rw [Node.exprPlan, ExprPlan.WF]; exact hwf
  | selector s =>
    refine plansWF_expr _ ?_ ?_
    · rw [Node.isExpr]
    · rw [Node.exprPlan, ExprPlan.WF]; exact hwf
  | _ => simp [Node.isTarget] at h

lemma plansWF_clause {n : Node} (h : n.isClause = true) : PlansWF n.walk := by
  cases n with
  | importNames start path names stop =>
    rw [Node.isClause, List.all_eq_true] at h
    rw [Node.walk]
    refine .cons (.part rfl) (plansWF_walkAll fun name hname => ?_)
    have hname := h name hname
    cases name with
    | comment start source => exact plansWF_comment start source
    | identifier => exact plansWF_leaf rfl (.part rfl)
    | _ => simp [Node.isName] at hname
  | _ => simp [Node.isClause] at h

mutual
lemma plansWF_statement : ∀ n : Node, n.isStatement = true → n.statementPlan.WF → PlansWF n.walk := by
  intro n hn hwf
  have hself := Node.Planned.statement hn hwf
  cases n with
  | assign start targets values stop =>
    rw [Node.isStatement, Bool.and_eq_true, List.all_eq_true] at hn
    rw [Node.statementPlan, StatementPlan.WF] at hwf
    obtain ⟨⟨-, htargets⟩, -, -, hvalues⟩ := hwf
    have hleft : PlansWF (Node.walkAll targets) := plansWF_walkAll fun target ht =>
      plansWF_target (hn.1 target ht) (htargets _ (List.mem_map_of_mem ht))
    rw [Node.walk]
    exact .cons hself (hleft.append (plansWF_values _ _ values hn.2 hvalues))
  | block start body stop =>
    rw [Node.isStatement] at hn
    rw [Node.statementPlan, StatementPlan.WF] at hwf
    rw [Node.walk]
    exact .cons hself (plansWF_entries _ body hn hwf.2)
  | jump start kind stop => exact plansWF_leaf rfl hself
  | expression value =>
    rw [Node.isStatement] at hn
    rw [Node.statementPlan, StatementPlan.WF] at hwf
    rw [Node.walk]
    exact .cons hself (plansWF_expr value hn hwf)
  | forLoop start test bodyStart body stop =>
    cases test with
    | none =>
      rw [Node.isStatement] at hn
      rw [Node.statementPlan, StatementPlan.WF] at hwf
      rw [Node.walk]
      exact .cons hself (plansWF_entries _ body hn hwf.2)
    | some test =>
      rw [Node.isStatement, Bool.and_eq_true] at hn
      rw [Node.statementPlan, StatementPlan.WF] at hwf
      rw [Node.walk]
      exact .cons hself
        ((plansWF_expr test hn.1 hwf.1).append (plansWF_entries _ body hn.2 hwf.2.2))
  | ifElse start test thenStart thenBody thenStop elseBody stop =>
    rw [Node.isStatement, Bool.and_eq_true, Bool.and_eq_true] at hn
    rw [Node.statementPlan, StatementPlan.WF] at hwf
    obtain ⟨htest, ⟨-, hthen⟩, -, helse⟩ := hwf
    rw [Node.walk]
    exact .cons hself (((plansWF_expr test hn.1.1 htest).append
      (plansWF_entries _ thenBody hn.1.2 hthen)).append (plansWF_entries _ elseBody hn.2 helse))
  | returnValues start values stop =>
    rw [Node.isStatement] at hn
    rw [Node.statementPlan, StatementPlan.WF] at hwf
    rw [Node.walk]
    exact .cons hself (plansWF_values _ _ values hn hwf.2)
  | variableDecl start names type stop =>
    rw [Node.walk]
    exact .cons hself (plansWF_typeSpecs _)
  | variableDef start names values stop =>
    rw [Node.isStatement] at hn
    rw [Node.statementPlan, StatementPlan.WF] at hwf
    rw [Node.walk]
    exact .cons hself (plansWF_values _ _ values hn hwf.2.2)
  | _ => simp [Node.isStatement] at hn

lemma plansWF_entries (previous : Int) : ∀ nodes : List Node, areStatements nodes = true →
    EntriesWF (entryPlans previous nodes) → PlansWF (Node.walkAll nodes) := by
  intro nodes hn hwf
  match nodes with
  | [] =>
    rw [Node.walkAll]
    exact plansWF_nil
  | node :: nodes =>
    rw [Node.walkAll]
    cases node with
    | importNames start path names stop =>
      rw [areStatements, Bool.and_eq_true] at hn
      rw [entryPlans] at hwf
      exact (plansWF_clause hn.1).append (plansWF_entries previous nodes hn.2 hwf)
    | comment start source =>
      rw [areStatements] at hn
      rw [entryPlans, EntriesWF] at hwf
      exact (plansWF_comment start source).append (plansWF_entries _ nodes hn hwf.2)
    | _ =>
      rw [areStatements, Bool.and_eq_true] at hn <;> try simp
      rw [entryPlans, EntriesWF] at hwf <;> try simp
      exact (plansWF_statement _ hn.1 hwf.1).append (plansWF_entries _ nodes hn.2 hwf.2)
end

end Statements

section Files

variable {n : Node} {nodes : List Node}

lemma mem_walkAll {e : Node} : e ∈ Node.walkAll nodes ↔ ∃ n ∈ nodes, e ∈ n.walk := by
  induction nodes with
  | nil => simp [Node.walkAll]
  | cons n nodes ih => rw [Node.walkAll, List.mem_append, ih, List.exists_mem_cons_iff]

lemma isClause_of_mem (hn : areStatements nodes = true) (h : n ∈ nodes) (hi : n.isImport = true) :
    n.isClause = true := by
  induction nodes with
  | nil => exact absurd h List.not_mem_nil
  | cons first nodes ih =>
    have hrest : areStatements nodes = true := areStatements_sublist (List.sublist_cons_self _ _) hn
    rcases List.mem_cons.1 h with rfl | h
    · cases n with
      | importNames start path names stop =>
        rw [areStatements, Bool.and_eq_true] at hn
        exact hn.1
      | _ => cases hi
    · exact ih hrest h

lemma plansWF_functionBody {results : List Node} {previous : Int} (hn : areStatements nodes = true)
    (hwf : EntriesWF (entryPlans previous (functionBody results nodes))) :
    PlansWF (Node.walkAll nodes) := by
  have hbody := plansWF_entries previous _
    (areStatements_sublist (functionBody_sublist results nodes) hn) hwf
  refine plansWF_walkAll fun n h => ?_
  rcases mem_functionBody h with hkept | himport | hbare
  · exact fun e he => hbody e (mem_walkAll.2 ⟨n, hkept, he⟩)
  · exact plansWF_clause (isClause_of_mem hn h himport)
  · cases n with
    | returnValues start values stop =>
      obtain rfl := List.isEmpty_iff.1 hbare
      have hwalk : (Node.returnValues start [] stop).walk = [.returnValues start [] stop] := by
        rw [Node.walk, Node.walkAll]
      apply plansWF_leaf hwalk
      apply Node.Planned.statement
      · rw [Node.isStatement, areValues]
      · rw [Node.statementPlan, valuePlans, StatementPlan.WF, ValuesWF]
        exact ⟨rfl, trivial⟩
    | _ => cases hbare

lemma plansWF_definition (h : Parser.IsDefinition n) : PlansWF n.walk := by
  have hself := Node.Planned.definition h
  cases n with
  | constantDef start isPublic name value stop =>
    rw [Node.walk]
    exact .cons hself (plansWF_expr value h.2.isExpr h.2.wf)
  | functionDef head params results body =>
    obtain ⟨hwf, hmember, -⟩ := h
    rw [Node.isFileMember, Bool.and_eq_true, Bool.and_eq_true, List.all_eq_true,
      List.all_eq_true] at hmember
    obtain ⟨⟨hparams, hresults⟩, hbody⟩ := hmember
    have hparamsWF : PlansWF (Node.walkAll params) := plansWF_walkAll fun param hp => by
      have hparam := hparams param hp
      cases param with
      | comment start source => exact plansWF_comment start source
      | parameter =>
        rw [Node.walk]
        exact .cons (.part rfl) (plansWF_typeSpecs _)
      | _ => cases hparam
    have hresultsWF : PlansWF (Node.walkAll results) := plansWF_walkAll fun result hr => by
      have hresult := hresults result hr
      cases result with
      | comment start source => exact plansWF_comment start source
      | typeSpec => exact plansWF_leaf rfl (.part rfl)
      | _ => cases hresult
    rw [Node.walk]
    exact .cons hself ((((plansWF_typeSpecs _).append hparamsWF).append
      hresultsWF).append (plansWF_functionBody hbody hwf.body.2))
  | typeDef start isPublic name fields stop =>
    have hfields := List.all_eq_true.1 h.2.1
    rw [Node.walk]
    refine .cons hself (plansWF_walkAll fun field hf => ?_)
    have hfield := hfields field hf
    cases field with
    | comment start source => exact plansWF_comment start source
    | field => exact .cons (.part rfl) (plansWF_typeSpecs [_])
    | importNames => exact plansWF_clause hfield
    | _ => cases hfield
  | importList start imports stop =>
    rw [Node.walk]
    refine .cons hself (plansWF_walkAll fun entry he => ?_)
    rcases h entry he with ⟨start, source, rfl, -⟩ | hclause
    · exact plansWF_comment start source
    · exact plansWF_clause (Parser.isClause_of_isClause hclause)
  | _ => exact h.elim

lemma IsFile.plansWF (h : IsFile nodes) : PlansWF (Node.walkAll nodes) := by
  refine plansWF_walkAll fun n hn => ?_
  rcases h.each n hn with ⟨start, source, rfl, -⟩ | hdef
  · exact plansWF_comment start source
  · exact plansWF_definition hdef

end Files

end DpLang
