import DpLang.Proofs.DerivationGrammar
import DpLang.Proofs.ParameterTypes

/-!
# Derivations of statements, definitions and files

A file that is parsed is derived from its tokens, whichever they are, and every member of the file is
what may stand there.
-/

namespace DpLang.Parser

variable {c d : Cursor} {kind : TokenKind} {t : Token} {ns : List Node}

section Imports

lemma importedNames_lists (h : importedNames c = .ok (ns, d)) :
    Lists (fun n => n.isName = true) c ns d := by
  obtain ⟨x, c1, hx, h⟩ := bind_ok_iff.1 h
  cases x with
  | true =>
    obtain ⟨t, ht⟩ := skip_took hx
    obtain ⟨m, u, hlists, hu⟩ := membersUntil_lists (by
      simp only [List.forall_mem_cons]
      exact ⟨formsMember_comma, (forms_comment fun _ _ => rfl).member, forms_identifier.member,
        formsMember_newline, by simp⟩) h
    exact lists_of_steps (hlists.group ht rfl hu rfl)
  | false =>
    obtain rfl := settle_of_skip hx
    refine (nakedMembers_lists ?_ h).after (.settle c)
    simp only [List.forall_mem_cons]
    exact ⟨formsMember_comma, forms_identifier.member, by simp⟩

/-- The text that an import keeps for its path. -/
def pathParts (path : Text) : List Part := if path.isEmpty then [] else [.text .string path]

lemma pathParts_of_quote {path : Text} (h : path.head? = some '"') :
    pathParts path = [.text .string path] := by
  cases path with
  | nil => cases h
  | cons => rfl

lemma importedPath_steps {path : Text} (h : importedPath c = .ok (path, d)) :
    ∃ b, Steps b c (pathParts path) d ∧ (path ≠ [] → b = true) := by
  obtain ⟨o, c1, ho, h⟩ := bind_ok_iff.1 h
  obtain ⟨rfl, rfl⟩ | ⟨t, rfl, ht⟩ := skim_steps ho
  · obtain ⟨rfl, rfl⟩ := pure_ok_iff.1 h
    exact ⟨false, .settle c, fun hne => absurd rfl hne⟩
  · dsimp only at h
    split_ifs at h with hquote
    · exact absurd h not_reject_bind_ok
    · obtain ⟨rfl, rfl⟩ := pure_ok_iff.1 h
      refine ⟨true, ?_, fun _ => rfl⟩
      rw [pathParts_of_quote (not_not.1 hquote)]
      exact ht.kept rfl

lemma forms_importWithKeyword : Forms (fun n => n.isClause = true) importWithKeyword := by
  intro c n d h
  replace h := of_here_bind h
  obtain ⟨x, c2, hx, h⟩ := bind_ok_iff.1 h
  cases x with
  | false =>
    exact absurd h not_reject_bind_ok
  | true =>
    have hkeyword := (Steps.settle c).before (skip_steps rfl hx)
    obtain ⟨path, c3, hpath, h⟩ := bind_ok_iff.1 h
    obtain ⟨a, hpsteps, -⟩ := importedPath_steps hpath
    obtain ⟨names, c4, hnames, h⟩ := bind_ok_iff.1 h
    obtain ⟨⟨b, hnsteps, -⟩, hn⟩ := importedNames_lists hnames
    obtain ⟨rfl, rfl⟩ := lastStop_bind h
    exact ⟨((hkeyword.before hpsteps).trans hnsteps).node rfl (.inl rfl) rfl, List.all_eq_true.2 hn⟩

lemma forms_importEntry : Forms (fun n => n.isClause = true) importEntry := by
  intro c n d h
  replace h := of_here_bind h
  obtain ⟨x, c2, hx, h⟩ := bind_ok_iff.1 h
  have hkeyword := (Steps.settle c).before (skip_steps rfl hx)
  obtain ⟨path, c3, hpath, h⟩ := bind_ok_iff.1 h
  obtain ⟨a, hpsteps, ha⟩ := importedPath_steps hpath
  obtain ⟨names, c4, hnames, h⟩ := bind_ok_iff.1 h
  obtain ⟨⟨b, hnsteps, hb⟩, hn⟩ := importedNames_lists hnames
  dsimp only at h
  split_ifs at h with hempty
  · exact absurd h not_bind_reject_bind_ok
  · obtain ⟨rfl, rfl⟩ := lastStop_bind h
    -- The keyword may be missing, so it is the path or a name that has been taken.
    have htaken : (a || b) = true := by
      by_cases hpath : path = []
      · rw [hb (by rintro rfl; exact hempty (by simp [hpath])), Bool.or_true]
      · rw [ha hpath, Bool.true_or]
    have hall := hpsteps.trans hnsteps
    rw [htaken] at hall
    exact ⟨(hkeyword.taken hall).node rfl (.inl rfl) rfl, List.all_eq_true.2 hn⟩

lemma forms_pathImport : Forms (fun n => n.isClause = true) pathImport := by
  intro c n d h
  obtain ⟨t, c1, ht, h⟩ := bind_ok_iff.1 h
  have htook := take_took ht
  dsimp only at h
  split_ifs at h with hquote
  · exact absurd h not_reject_bind_ok
  · obtain ⟨rfl, rfl⟩ := lastStop_bind h
    refine ⟨(htook.kept rfl).node ?_ (.inl htook.start) rfl, rfl⟩
    exact (List.append_nil _).trans (pathParts_of_quote (not_not.1 hquote))

end Imports

section Statements

lemma nakedValues_lists (h : nakedValues c = .ok (ns, d)) :
    Lists (fun n => areValues [n] = true) c ns d := by
  refine nakedMembers_lists ?_ h
  simp only [List.forall_mem_cons]
  exact ⟨formsMember_comma, forms_listValue.member, by simp⟩

lemma delimitedValues_lists {c0 : Cursor} (ho : Took (.symbol .parenLeft) c0 t c)
    (h : delimitedValues c = .ok (ns, d)) : Lists (fun n => areValues [n] = true) c0 ns d := by
  obtain ⟨values, c1, hvalues, h⟩ := bind_ok_iff.1 h
  obtain ⟨m, u, hlists, hu⟩ := membersUntil_lists (by
    simp only [List.forall_mem_cons]
    exact ⟨formsMember_comma, (forms_comment fun _ _ => rfl).member, forms_listValue.member,
      formsMember_newline, by simp⟩) hvalues
  obtain ⟨rfl, rfl⟩ := unless_ok h
  exact (lists_of_steps (hlists.group ho rfl hu rfl)).settle

lemma values_lists (h : values c = .ok (ns, d)) : Lists (fun n => areValues [n] = true) c ns d := by
  obtain ⟨x, c1, hx, h⟩ := bind_ok_iff.1 h
  cases x with
  | true =>
    obtain ⟨t, ht⟩ := skip_took hx
    exact delimitedValues_lists ht h
  | false =>
    obtain rfl := settle_of_skip hx
    exact (nakedValues_lists h).after (.settle c)

lemma forms_assignerDereference : Forms (fun n => n.isTarget = true) assignerDereference := by
  intro c n d h
  obtain ⟨o, c1, ho, h⟩ := bind_ok_iff.1 h
  have hname := assignerDereference?_steps ho
  cases o with
  | none =>
    exact absurd h not_bind_reject_ok
  | some node =>
    obtain ⟨hsteps, start, name, stop, rfl⟩ := hname
    obtain ⟨rfl, rfl⟩ := pure_ok_iff.1 h
    exact ⟨hsteps, rfl⟩

lemma targets_lists (h : targets c = .ok (ns, d)) : Lists (fun n => n.isTarget = true) c ns d := by
  refine nakedMembers_lists ?_ h
  simp only [List.forall_mem_cons]
  refine ⟨forms_assignerDereference.member, (forms_targetCallOf forms_atomic).member,
    formsMember_comma, ((forms_indexOf forms_atomic).mono fun n hn => hn.2).member,
    (forms_selector.mono ?_).member, by simp⟩
  rintro n ⟨s, rfl⟩
  rfl

lemma forms_assign : Forms (fun n => n.isStatement = true) assign := by
  intro c n d h
  obtain ⟨targets, c1, htargets, h⟩ := bind_ok_iff.1 h
  obtain ⟨⟨a, htsteps, ha⟩, ht⟩ := targets_lists htargets
  cases targets with
  | nil =>
    exact absurd h not_bind_reject_ok
  | cons first others =>
    obtain ⟨t, c2, hassign, h⟩ := bind_ok_iff.1 h
    obtain ⟨values, c3, hvalues, h⟩ := bind_ok_iff.1 h
    obtain ⟨⟨b, hvsteps, -⟩, hv⟩ := values_lists hvalues
    dsimp only at h
    split_ifs at h with hempty
    · exact absurd h not_bind_reject_bind_ok
    · obtain ⟨rfl, rfl⟩ := lastStop_bind h
      rw [ha (List.cons_ne_nil _ _)] at htsteps
      have hfront : Steps true c _ c2 := htsteps.andThen ((take_took hassign).silent rfl)
      refine ⟨(hfront.taking hvsteps).node (by rw [← List.map_append]; rfl)
        (.inr ⟨first, _, rfl, rfl⟩) rfl, ?_⟩
      exact Bool.and_eq_true_iff.2 ⟨List.all_eq_true.2 ht, areValues_of_forall hv⟩

lemma forms_jump {keyword : Keyword} {jumpKind : Jump} {message : Text} :
    Forms (fun n => n.isStatement = true) (jump keyword jumpKind message) :=
  forms_keyword (f := fun start stop => .jump start jumpKind stop) fun _ _ => ⟨rfl, rfl, rfl, rfl⟩

lemma forms_expressionStatement : Forms (fun n => n.isStatement = true) expressionStatement := by
  intro c n d h
  obtain ⟨value, c1, hvalue, h⟩ := bind_ok_iff.1 h
  obtain ⟨hsteps, hexpr⟩ := forms_expression hvalue
  obtain ⟨rfl, rfl⟩ := unless_ok h
  exact ⟨hsteps.expression.andThen (.settle c1), hexpr⟩

lemma forms_returnValues : Forms (fun n => n.isStatement = true) returnValues := by
  intro c n d h
  obtain ⟨t, c1, ht, h⟩ := bind_ok_iff.1 h
  have htook := take_took ht
  obtain ⟨values, c2, hvalues, h⟩ := bind_ok_iff.1 h
  have hlists : Lists (fun n => areValues [n] = true) c1 values c2 := by
    obtain ⟨p, hmem, hvalues⟩ := firstOf_ok hvalues
    simp only [List.mem_cons, List.not_mem_nil, or_false] at hmem
    rcases hmem with rfl | rfl
    · exact nakedValues_lists hvalues
    · obtain ⟨u, e, hu, hvalues⟩ := bind_ok_iff.1 hvalues
      exact delimitedValues_lists (take_took hu) hvalues
  obtain ⟨⟨b, hsteps, -⟩, hall⟩ := hlists
  obtain ⟨rfl, rfl⟩ := lastStop_bind h
  exact ⟨((htook.silent rfl).before hsteps).node rfl (.inl htook.start) rfl,
    areValues_of_forall hall⟩

lemma variableNames_steps {names : List Text} (h : variableNames c = .ok (names, d)) :
    ∃ b, Steps b c [] d := by
  have hname ⦃c d : Cursor⦄ ⦃found : Option Text⦄
      (h : firstOf [comma, member (return (← take .word "variable name expected").text)] c =
        .ok (found, d)) : Steps true c [] d := by
    obtain ⟨p, hmem, h⟩ := firstOf_ok h
    simp only [List.mem_cons, List.not_mem_nil, or_false] at hmem
    rcases hmem with rfl | rfl
    · obtain ⟨t, e, ht, h⟩ := bind_ok_iff.1 h
      obtain ⟨-, rfl⟩ := pure_ok_iff.1 h
      exact (take_took ht).silent rfl
    · obtain ⟨name, e, hname, h⟩ := bind_ok_iff.1 h
      obtain ⟨-, rfl⟩ := pure_ok_iff.1 h
      obtain ⟨t, e, ht, hname⟩ := bind_ok_iff.1 hname
      obtain ⟨-, rfl⟩ := pure_ok_iff.1 hname
      exact (take_took ht).silent rfl
  obtain ⟨m, ⟨b, hsteps⟩, hend⟩ := membersWithin_induct (R := fun c _ d => ∃ b, Steps b c [] d)
    (fun _ _ => settle_of_nakedEnd) (fun c => ⟨false, .refl c⟩)
    (fun c _ _ _ _ hfound ⟨_, hrest⟩ =>
      ⟨_, ((Steps.settle c).before (hname hfound)).before hrest⟩) h
  rw [settle_of_nakedEnd hend]
  exact ⟨_, hsteps.andThen (.settle m)⟩

lemma forms_variableDecl : Forms (fun n => n.isStatement = true) variableDecl := by
  intro c n d h
  replace h := of_here_bind h
  obtain ⟨names, c2, hnames, h⟩ := bind_ok_iff.1 h
  obtain ⟨b, hnsteps⟩ := variableNames_steps hnames
  obtain ⟨t, c3, ht, h⟩ := bind_ok_iff.1 h
  have hfront := ((Steps.settle c).before hnsteps).taken ((take_took ht).silent rfl)
  obtain ⟨x, c4, hx, h⟩ := bind_ok_iff.1 h
  have hauto := hfront.taking (skip_steps rfl hx)
  cases x with
  | true =>
    obtain ⟨rfl, rfl⟩ := lastStop_bind h
    exact ⟨hauto.node rfl (.inl rfl) rfl, rfl⟩
  | false =>
    obtain ⟨type, c5, htype, h⟩ := bind_ok_iff.1 h
    obtain ⟨rfl, rfl⟩ := lastStop_bind h
    exact ⟨(hauto.taking (typeSpec_steps htype)).node rfl (.inl rfl) rfl, rfl⟩

lemma forms_variableDef : Forms (fun n => n.isStatement = true) variableDef := by
  intro c n d h
  replace h := of_here_bind h
  obtain ⟨names, c2, hnames, h⟩ := bind_ok_iff.1 h
  obtain ⟨b, hnsteps⟩ := variableNames_steps hnames
  obtain ⟨t, c3, ht, h⟩ := bind_ok_iff.1 h
  have hfront := ((Steps.settle c).before hnsteps).taken ((take_took ht).silent rfl)
  obtain ⟨values, c4, hvalues, h⟩ := bind_ok_iff.1 h
  obtain ⟨⟨b, hvsteps, -⟩, hv⟩ := values_lists hvalues
  obtain ⟨rfl, rfl⟩ := lastStop_bind h
  exact ⟨(hfront.taking hvsteps).node rfl (.inl rfl) rfl, areValues_of_forall hv⟩

end Statements

section Blocks

lemma areStatements_cons_eq (n : Node) (ns : List Node) :
    areStatements (n :: ns) = (areStatements [n] && areStatements ns) := by
  cases n <;> simp [areStatements]

lemma areStatements_of_forall (h : ∀ n ∈ ns, areStatements [n] = true) :
    areStatements ns = true := by
  induction ns with
  | nil => rfl
  | cons n ns ih =>
    obtain ⟨hn, hns⟩ := List.forall_mem_cons.1 h
    rw [areStatements_cons_eq, hn, ih hns]
    rfl

lemma areStatements_of_isStatement {n : Node} (h : n.isStatement = true) :
    areStatements [n] = true := by
  cases n with
  | importNames => cases h
  | comment => rfl
  | _ => simpa [areStatements] using h

lemma areStatements_of_isClause {n : Node} (h : n.isClause = true) : areStatements [n] = true := by
  cases n with
  | importNames => simpa [areStatements] using h
  | _ => cases h

/-- A parser of the statements of a block behind its opening brace. -/
def FormsBlock (p : Parser (List Node)) : Prop :=
  ∀ ⦃c ns d⦄, p c = .ok (ns, d) →
    ∃ m t, Lists (fun n => areStatements [n] = true) c ns m ∧ Took (.symbol .braceRight) m t d

variable {statements : Parser (List Node)}

lemma FormsBlock.steps (hs : FormsBlock statements) {c0 : Cursor}
    (ho : Took (.symbol .braceLeft) c0 t c) (h : statements c = .ok (ns, d)) :
    Steps true c0 (ns.map .node) d ∧ areStatements ns = true := by
  obtain ⟨m, u, hlists, hu⟩ := hs h
  obtain ⟨hsteps, hall⟩ := hlists.group ho rfl hu rfl
  exact ⟨hsteps, areStatements_of_forall hall⟩

lemma forms_blockOf (hs : FormsBlock statements) :
    Forms (fun n => n.isStatement = true) (blockOf statements) := by
  intro c n d h
  obtain ⟨t, c1, ht, h⟩ := bind_ok_iff.1 h
  obtain ⟨body, c2, hbody, h⟩ := bind_ok_iff.1 h
  obtain ⟨hsteps, hall⟩ := hs.steps (take_took ht) hbody
  obtain ⟨rfl, rfl⟩ := lastStop_bind h
  exact ⟨hsteps.node rfl (.inl (take_took ht).start) rfl, hall⟩

lemma forms_forLoopOf (hs : FormsBlock statements) :
    Forms (fun n => n.isStatement = true) (forLoopOf statements) := by
  intro c n d h
  obtain ⟨t, c1, ht, h⟩ := bind_ok_iff.1 h
  have hkeyword := take_took ht
  obtain ⟨o, c2, ho, h⟩ := bind_ok_iff.1 h
  obtain ⟨rfl, rfl⟩ | ⟨u, rfl, hu⟩ := skim_steps ho
  · obtain ⟨test, c3, htest, h⟩ := bind_ok_iff.1 h
    obtain ⟨htsteps, hexpr⟩ := forms_expression htest
    obtain ⟨u, c4, hu, h⟩ := bind_ok_iff.1 h
    have hopening := take_took hu
    obtain ⟨body, c5, hbody, h⟩ := bind_ok_iff.1 h
    obtain ⟨hsteps, hall⟩ := hs.steps hopening hbody
    have hfront : Steps true c [.node test] c3 :=
      ((hkeyword.silent rfl).before (.settle c1)).before htsteps
    have hparts := hfront.taking (hsteps.markHere hopening.ne_nil)
    rw [← hopening.start] at hparts
    obtain ⟨rfl, rfl⟩ := lastStop_bind h
    exact ⟨hparts.node rfl (.inl hkeyword.start) rfl, Bool.and_eq_true_iff.2 ⟨hexpr, hall⟩⟩
  · obtain ⟨body, c3, hbody, h⟩ := bind_ok_iff.1 h
    obtain ⟨hsteps, hall⟩ := hs.steps hu hbody
    have hparts := (hkeyword.silent rfl).taking (hsteps.markHere hu.ne_nil)
    rw [← hu.start] at hparts
    obtain ⟨rfl, rfl⟩ := lastStop_bind h
    exact ⟨hparts.node rfl (.inl hkeyword.start) rfl, hall⟩

lemma forms_ifElseOf (hs : FormsBlock statements) :
    Forms (fun n => n.isStatement = true) (ifElseOf statements) := by
  intro c n d h
  obtain ⟨t, c1, ht, h⟩ := bind_ok_iff.1 h
  have hkeyword := take_took ht
  obtain ⟨test, c2, htest, h⟩ := bind_ok_iff.1 h
  obtain ⟨htsteps, hexpr⟩ := forms_expression htest
  obtain ⟨u, c3, hu, h⟩ := bind_ok_iff.1 h
  have hopening := take_took hu
  obtain ⟨thenBody, c4, hthen, h⟩ := bind_ok_iff.1 h
  obtain ⟨hsteps, hall⟩ := hs.steps hopening hthen
  replace h := of_lastStop_bind h
  have hfront : Steps true c [.node test] c2 := (hkeyword.silent rfl).before htsteps
  have hthenParts := hsteps.markLast.markHere hopening.ne_nil
  rw [← hopening.start] at hthenParts
  have hfirst : (test.isExpr && areStatements thenBody) = true :=
    Bool.and_eq_true_iff.2 ⟨hexpr, hall⟩
  have hparts := hfront.taking hthenParts
  obtain ⟨x, c6, hx, h⟩ := bind_ok_iff.1 h
  have helse := hparts.andThen (skip_steps rfl hx)
  cases x with
  | true =>
    obtain ⟨v, c7, hv, h⟩ := bind_ok_iff.1 h
    obtain ⟨elseBody, c8, hbody, h⟩ := bind_ok_iff.1 h
    obtain ⟨hesteps, heall⟩ := hs.steps (take_took hv) hbody
    obtain ⟨rfl, rfl⟩ := lastStop_bind h
    refine ⟨(helse.trans hesteps).node ?_ (.inl hkeyword.start) rfl, ?_⟩
    · simp [Node.parts]
    · exact Bool.and_eq_true_iff.2 ⟨hfirst, heall⟩
  | false =>
    obtain ⟨rfl, rfl⟩ := lastStop_bind h
    exact ⟨helse.node rfl (.inl hkeyword.start) rfl, Bool.and_eq_true_iff.2 ⟨hfirst, rfl⟩⟩

lemma formsBlock_statementsOf (hs : FormsBlock statements) :
    FormsBlock (statementsOf statements) := by
  intro c ns d h
  refine membersUntil_lists ?_ h
  have hstatement {p : Parser Node} (hp : Forms (fun n => n.isStatement = true) p) :
      FormsMember (fun n => areStatements [n] = true) (member p) :=
    (hp.mono fun _ => areStatements_of_isStatement).member
  simp only [List.forall_mem_cons]
  exact ⟨hstatement forms_assign, hstatement (forms_blockOf hs), hstatement forms_jump,
    (forms_comment fun _ _ => rfl).member, hstatement forms_jump,
    hstatement forms_expressionStatement, hstatement (forms_forLoopOf hs),
    hstatement (forms_ifElseOf hs),
    (forms_importWithKeyword.mono fun _ => areStatements_of_isClause).member, formsMember_newline,
    hstatement forms_returnValues, formsMember_semicolon, hstatement forms_variableDecl,
    hstatement forms_variableDef, by simp⟩

lemma formsBlock_statementsWithin (fuel : Nat) : FormsBlock (statementsWithin fuel) := by
  induction fuel with
  | zero => exact fun _ _ _ h => by cases h
  | succ fuel ih => exact formsBlock_statementsOf ih

lemma formsBlock_statements : FormsBlock Parser.statements :=
  fun _ _ _ h => formsBlock_statementsWithin _ h

end Blocks

section Definitions

lemma definedName_steps {what : Text} {r : Token × Bool × Text}
    (h : definedName what c = .ok (r, d)) : Steps true c [] d ∧ r.1.start = c.position := by
  obtain ⟨t, c1, ht, h⟩ := bind_ok_iff.1 h
  have htook := take_took ht
  split_ifs at h with hpub
  · obtain ⟨u, hu, rfl⟩ := bind_pure_ok h
    exact ⟨(htook.silent rfl).before ((take_took hu).silent rfl), htook.start⟩
  · obtain ⟨rfl, rfl⟩ := pure_ok_iff.1 h
    exact ⟨htook.silent rfl, htook.start⟩

lemma forms_constantDef : Forms (fun n => n.isFileMember = true) constantDef := by
  intro c n d h
  obtain ⟨r, c1, hr, h⟩ := bind_ok_iff.1 h
  obtain ⟨hname, hstart⟩ := definedName_steps hr
  obtain ⟨t, c2, ht, h⟩ := bind_ok_iff.1 h
  obtain ⟨value, c3, hvalue, h⟩ := bind_ok_iff.1 h
  obtain ⟨hsteps, hexpr⟩ := forms_expression hvalue
  obtain ⟨rfl, rfl⟩ := lastStop_bind h
  have hfront := hname.before ((take_took ht).silent rfl)
  exact ⟨(hfront.before hsteps).node rfl (.inl hstart) rfl, hexpr⟩

lemma forms_parameter : Forms (fun _ => True) parameter := by
  intro c n d h
  obtain ⟨t, c1, ht, h⟩ := bind_ok_iff.1 h
  have hname := take_took ht
  obtain ⟨x, c2, hx, h⟩ := bind_ok_iff.1 h
  have hfront := (hname.silent rfl).before (skip_steps rfl hx)
  cases x with
  | true =>
    obtain ⟨rfl, rfl⟩ := lastStop_bind h
    exact ⟨hfront.node rfl (.inl hname.start) rfl, trivial⟩
  | false =>
    obtain ⟨type, c3, htype, h⟩ := bind_ok_iff.1 h
    obtain ⟨y, c4, hy, h⟩ := bind_ok_iff.1 h
    obtain ⟨rfl, rfl⟩ := lastStop_bind h
    have hsteps := (hfront.before (typeSpec_steps htype)).andThen (skip_steps rfl hy)
    exact ⟨hsteps.node rfl (.inl hname.start) rfl, trivial⟩

lemma isOpen_parameter {n : Node} (h : parameter c = .ok (n, d)) : n.IsOpen := by
  obtain ⟨t, c1, ht, h⟩ := bind_ok_iff.1 h
  obtain ⟨x, c2, hx, h⟩ := bind_ok_iff.1 h
  cases x with
  | true =>
    obtain ⟨rfl, rfl⟩ := lastStop_bind h
    exact .inr ⟨_, _, _, _, rfl⟩
  | false =>
    obtain ⟨type, c3, htype, h⟩ := bind_ok_iff.1 h
    obtain ⟨y, c4, hy, h⟩ := bind_ok_iff.1 h
    obtain ⟨rfl, rfl⟩ := lastStop_bind h
    exact .inr ⟨_, _, _, _, rfl⟩

lemma parameters_isOpen (h : parameters c = .ok (ns, d)) : ∀ n ∈ ns, n.IsOpen := by
  have hmember ⦃c d : Cursor⦄ ⦃found : Option Node⦄
      (h : firstOf [comma, member comment, newline, member parameter] c = .ok (found, d)) :
      ∀ n ∈ found, n.IsOpen := by
    obtain ⟨p, hmem, h⟩ := firstOf_ok h
    simp only [List.mem_cons, List.not_mem_nil, or_false] at hmem
    rcases hmem with rfl | rfl | rfl | rfl
    all_goals obtain ⟨x, e, hx, h⟩ := bind_ok_iff.1 h
    all_goals obtain ⟨rfl, rfl⟩ := pure_ok_iff.1 h
    · simp
    · obtain ⟨t, e', ht, hx⟩ := bind_ok_iff.1 hx
      obtain ⟨rfl, rfl⟩ := pure_ok_iff.1 hx
      exact fun n hn => .inl ⟨_, _, (Option.some.inj hn).symm⟩
    · simp
    · simpa using isOpen_parameter hx
  obtain ⟨m, hall, -⟩ := membersWithin_induct (R := fun _ ns _ => ∀ n ∈ ns, n.IsOpen)
    (fun _ _ hx => settle_of_skip hx) (fun _ => by simp)
    (fun c found d others m hfound hrest n hn => by
      rcases List.mem_append.1 hn with hn | hn
      · exact hmember hfound n (by simpa using hn)
      · exact hrest n hn) h
  exact hall

lemma isParameter_of_filledTypes {filled : List Node} {next : Option TypeSpec}
    (h : ∀ n ∈ ns, n.IsOpen) (hf : filledTypes ns = .ok (filled, next)) :
    ∀ n ∈ filled, n.isParameter = true := by
  induction ns generalizing filled next with
  | nil =>
    obtain ⟨rfl, rfl⟩ := Prod.mk.inj (Except.ok.inj hf)
    simp
  | cons n ns ih =>
    obtain ⟨hn, hns⟩ := List.forall_mem_cons.1 h
    obtain ⟨others, type, hrest, hstep⟩ := filledTypes_cons_ok hf
    have hothers := ih hns hrest
    rcases hstep with ⟨_, _, _, _, _, -, -, rfl, -⟩ | ⟨htakes, rfl, -⟩
    · exact List.forall_mem_cons.2 ⟨rfl, hothers⟩
    · rcases hn with ⟨start, source, rfl⟩ | ⟨start, name, spec, stop, rfl⟩
      · exact List.forall_mem_cons.2 ⟨rfl, hothers⟩
      · cases htakes

lemma publicKeyword_steps {x : Bool} (h : publicKeyword c = .ok (x, d)) : Steps x c [] d := by
  obtain ⟨o, c1, ho, h⟩ := bind_ok_iff.1 h
  have hpeek : c.peek? = o ∧ c.settle = c1 := Prod.mk.inj (Except.ok.inj ho)
  obtain ⟨-, rfl⟩ := hpeek
  have hnone (h : (pure false : Parser Bool) c.settle = .ok (x, d)) : Steps x c [] d := by
    obtain ⟨rfl, rfl⟩ := pure_ok_iff.1 h
    exact .settle c
  cases o with
  | none => exact hnone h
  | some t =>
    dsimp only at h
    split_ifs at h with hpub
    · exact (Steps.settle c).before (skip_steps rfl h)
    · exact hnone h

lemma functionName_steps {r : Text × Option TypeSpec × Text} (h : functionName c = .ok (r, d)) :
    Steps true c (r.2.1.toList.map (.node ∘ .typeSpec)) d := by
  obtain ⟨x, c1, hx, h⟩ := bind_ok_iff.1 h
  cases x with
  | true =>
    obtain ⟨opening, hopening⟩ := skip_took hx
    obtain ⟨receiver, c2, hreceiver, h⟩ := bind_ok_iff.1 h
    obtain ⟨type, c3, htype, h⟩ := bind_ok_iff.1 h
    obtain ⟨closing, c4, hclosing, h⟩ := bind_ok_iff.1 h
    obtain ⟨name, hname, rfl⟩ := bind_pure_ok h
    have hgroup := hopening.group rfl
      (((take_took hreceiver).silent rfl).before (typeSpec_steps htype)) (take_took hclosing) rfl
    obtain ⟨-, rfl⟩ | ⟨u, -, hu⟩ := skim_steps hname
    · exact hgroup.andThen (.settle c4)
    · exact hgroup.andThen (hu.silent rfl)
  | false =>
    obtain rfl := settle_of_skip hx
    obtain ⟨name, hname, rfl⟩ := bind_pure_ok h
    exact (Steps.settle c).before ((take_took hname).silent rfl)

lemma forms_result : Forms (fun n => n.isResult = true) (.typeSpec <$> typeSpec) := by
  intro c n d h
  rw [map_run] at h
  cases hspec : typeSpec c with
  | error e => rw [hspec] at h; cases h
  | ok r =>
    rw [hspec] at h
    obtain ⟨rfl, rfl⟩ := Prod.mk.inj (Except.ok.inj h)
    exact ⟨typeSpec_steps hspec, rfl⟩

lemma results_lists (h : firstOf [nakedResults, delimitedResults] c = .ok (ns, d)) :
    Lists (fun n => n.isResult = true) c ns d := by
  obtain ⟨p, hmem, h⟩ := firstOf_ok h
  simp only [List.mem_cons, List.not_mem_nil, or_false] at hmem
  rcases hmem with rfl | rfl
  · refine nakedMembers_lists ?_ h
    simp only [List.forall_mem_cons]
    exact ⟨formsMember_comma, forms_result.member, by simp⟩
  · obtain ⟨t, c1, ht, h⟩ := bind_ok_iff.1 h
    obtain ⟨m, u, hlists, hu⟩ := membersUntil_lists (by
      simp only [List.forall_mem_cons]
      exact ⟨formsMember_comma, (forms_comment fun _ _ => rfl).member, formsMember_newline,
        forms_result.member, by simp⟩) h
    exact lists_of_steps (hlists.group (take_took ht) rfl hu rfl)

lemma forms_functionDef : Forms (fun n => n.isFileMember = true) functionDef := by
  intro c n d h
  replace h := of_here_bind h
  obtain ⟨isPublic, c2, hpublic, h⟩ := bind_ok_iff.1 h
  obtain ⟨⟨receiverName, receiverType, name⟩, c3, hname, h⟩ := bind_ok_iff.1 h
  obtain ⟨opening, c4, hopening, h⟩ := bind_ok_iff.1 h
  obtain ⟨params, c5, hparams, h⟩ := bind_ok_iff.1 h
  replace h := of_lastStop_bind h
  have hopen := parameters_isOpen hparams
  obtain ⟨m, closing, hlists, hclosing⟩ := membersUntil_lists (P := fun _ => True) (by
    simp only [List.forall_mem_cons]
    exact ⟨formsMember_comma, (forms_comment fun _ _ => trivial).member, formsMember_newline,
      forms_parameter.member, by simp⟩) hparams
  have hpsteps := (hlists.group (take_took hopening) rfl hclosing rfl).1
  have hreceiver := ((Steps.settle c).before (publicKeyword_steps hpublic)).taken
    (functionName_steps hname)
  have hfront := hreceiver.taking hpsteps.markLast
  cases hfill : fillTypes params with
  | error report =>
    rw [hfill] at h
    cases h
  | ok filled =>
    rw [hfill] at h
    obtain ⟨results, c7, hresults, h⟩ := bind_ok_iff.1 h
    obtain ⟨⟨b, hrsteps, -⟩, hrall⟩ := results_lists hresults
    obtain ⟨brace, c8, hbrace, h⟩ := bind_ok_iff.1 h
    have hbrace := take_took hbrace
    obtain ⟨body, c9, hbody, h⟩ := bind_ok_iff.1 h
    obtain ⟨hbsteps, hball⟩ := formsBlock_statements.steps hbrace hbody
    obtain ⟨rfl, rfl⟩ := lastStop_bind h
    have hmarked := hbsteps.markHere hbrace.ne_nil
    rw [← hbrace.start] at hmarked
    have hresults := hfront.taking hrsteps
    refine ⟨Steps.function ?_ hfill hopen rfl rfl, ?_⟩
    · have hall := hresults.taking hmarked
      simpa [functionParts] using hall
    · refine Bool.and_eq_true_iff.2 ⟨Bool.and_eq_true_iff.2 ⟨?_, ?_⟩, hball⟩
      · obtain ⟨next, hfilled⟩ := exists_filledTypes hfill
        exact List.all_eq_true.2 (isParameter_of_filledTypes hopen hfilled)
      · exact List.all_eq_true.2 hrall

lemma fieldAccess_steps {access : FieldAccess} (h : fieldAccess c = .ok (access, d)) :
    ∃ b, Steps b c [] d := by
  obtain ⟨o, c1, ho, h⟩ := bind_ok_iff.1 h
  obtain ⟨rfl, rfl⟩ | ⟨t, rfl, ht⟩ := skim_steps ho
  · obtain ⟨-, rfl⟩ := pure_ok_iff.1 h
    exact ⟨_, .settle c⟩
  · dsimp only at h
    cases hword : FieldAccess.ofWord? t.text with
    | some found =>
      rw [hword] at h
      obtain ⟨-, rfl⟩ := pure_ok_iff.1 h
      exact ⟨_, ht.silent rfl⟩
    | none =>
      rw [hword] at h
      exact absurd h not_reject_ok

lemma forms_field : Forms (fun n => n.isField = true) field := by
  intro c n d h
  obtain ⟨t, c1, ht, h⟩ := bind_ok_iff.1 h
  have hname := take_took ht
  obtain ⟨type, c2, htype, h⟩ := bind_ok_iff.1 h
  obtain ⟨access, c3, haccess, h⟩ := bind_ok_iff.1 h
  obtain ⟨b, hasteps⟩ := fieldAccess_steps haccess
  obtain ⟨rfl, rfl⟩ := lastStop_bind h
  have hsteps := ((hname.silent rfl).before (typeSpec_steps htype)).andThen hasteps
  exact ⟨hsteps.node rfl (.inl hname.start) rfl, rfl⟩

lemma isField_withAccess {n : Node} (access : FieldAccess) (h : n.isField = true) :
    (withAccess access n).isField = true := by
  cases n with
  | field start name type own stop => cases own <;> rfl
  | _ => exact h

lemma isField_of_isClause {n : Node} (h : n.isClause = true) : n.isField = true := by
  cases n with
  | importNames => exact h
  | _ => cases h

lemma forms_typeDef : Forms (fun n => n.isFileMember = true) typeDef := by
  intro c n d h
  obtain ⟨r, c1, hr, h⟩ := bind_ok_iff.1 h
  obtain ⟨hname, hstart⟩ := definedName_steps hr
  obtain ⟨access, c2, haccess, h⟩ := bind_ok_iff.1 h
  obtain ⟨b, hasteps⟩ := fieldAccess_steps haccess
  obtain ⟨t, c3, ht, h⟩ := bind_ok_iff.1 h
  obtain ⟨fields, c4, hfields, h⟩ := bind_ok_iff.1 h
  obtain ⟨m, u, hlists, hu⟩ := membersUntil_lists (by
    simp only [List.forall_mem_cons]
    exact ⟨formsMember_comma, (forms_comment fun _ _ => rfl).member, forms_field.member,
      (forms_importWithKeyword.mono fun _ => isField_of_isClause).member, formsMember_newline,
      formsMember_semicolon, by simp⟩) hfields
  obtain ⟨hsteps, hall⟩ := hlists.group (take_took ht) rfl hu rfl
  obtain ⟨rfl, rfl⟩ := lastStop_bind h
  have hfront := hname.before hasteps
  refine ⟨(hfront.before (hsteps.withAccess access)).node rfl (.inl hstart) rfl, ?_⟩
  refine List.all_eq_true.2 fun n hn => ?_
  obtain ⟨n, hmem, rfl⟩ := List.mem_map.1 hn
  exact isField_withAccess access (hall n hmem)

lemma importMembers_lists (h : importMembers c = .ok (ns, d)) :
    Lists (fun n => n.isImportMember = true) c ns d := by
  have hclause {n : Node} (hn : n.isClause = true) : n.isImportMember = true := by
    rw [Node.isImportMember, hn, Bool.or_true]
  have hpath := (forms_pathImport.mono fun n hn => hclause hn).member
  have hcomment : FormsMember (fun n => n.isImportMember = true) (member comment) :=
    (forms_comment fun _ _ => rfl).member
  replace h := of_peekKind?_bind h
  split_ifs at h with hstring
  · refine (nakedMembers_lists ?_ h).after (.settle c)
    simp only [List.forall_mem_cons]
    exact ⟨formsMember_comma, hpath, by simp⟩
  obtain ⟨x, c2, hx, h⟩ := bind_ok_iff.1 h
  cases x with
  | true =>
    obtain ⟨t, ht⟩ := skip_took hx
    obtain ⟨m, u, hlists, hu⟩ := membersUntil_lists (by
      simp only [List.forall_mem_cons]
      exact ⟨formsMember_comma, hcomment, hpath, formsMember_newline, by simp⟩) h
    exact (lists_of_steps (hlists.group ht rfl hu rfl)).after (.settle c)
  | false =>
    obtain rfl := settle_of_skip hx
    obtain ⟨t, c3, ht, h⟩ := bind_ok_iff.1 h
    have hentry := (forms_importEntry.mono fun n hn => hclause hn).member
    obtain ⟨m, u, hlists, hu⟩ := membersUntil_lists (by
      simp only [List.forall_mem_cons]
      exact ⟨formsMember_comma, hcomment, hentry, formsMember_newline, formsMember_semicolon,
        by simp⟩) h
    exact (lists_of_steps (hlists.group (take_took ht) rfl hu rfl)).after
      ((Steps.settle c).before (.settle c.settle))

lemma forms_importList : Forms (fun n => n.isFileMember = true) importList := by
  intro c n d h
  obtain ⟨t, c1, ht, h⟩ := bind_ok_iff.1 h
  have hkeyword := take_took ht
  obtain ⟨imports, c2, himports, h⟩ := bind_ok_iff.1 h
  obtain ⟨⟨b, hsteps, -⟩, hall⟩ := importMembers_lists himports
  obtain ⟨rfl, rfl⟩ := lastStop_bind h
  exact ⟨((hkeyword.silent rfl).before hsteps).node rfl (.inl hkeyword.start) rfl,
    List.all_eq_true.2 hall⟩

end Definitions

section Files

lemma file_lists (h : file c = .ok (ns, d)) :
    ∃ m, Lists (fun n => n.isFileMember = true) c ns m ∧ m.solid = [] := by
  obtain ⟨m, hlists, hend⟩ := membersWithin_lists (fun _ _ hx => (settle_of_atEnd hx).1)
    (formsMember_firstOf (by
      simp only [List.forall_mem_cons]
      exact ⟨(forms_comment fun _ _ => rfl).member, forms_constantDef.member,
        forms_functionDef.member, forms_importList.member, formsMember_newline,
        formsMember_semicolon, forms_typeDef.member, by simp⟩)) h
  refine ⟨m, hlists, ?_⟩
  have hnone := (settle_of_atEnd hend).2
  rw [Cursor.peek?_eq] at hnone
  simpa using hnone.symm

end Files

end DpLang.Parser

namespace DpLang

variable {tokens : List Token} {nodes : List Node}

lemma file_of_parse (h : parse tokens = .ok nodes) :
    ∃ d, Parser.file (.ofTokens tokens) = .ok (nodes, d) := by
  unfold parse at h
  obtain ⟨r, hrun, h⟩ := of_bind_ok h
  obtain rfl := Except.ok.inj h
  exact ⟨r.2, hrun⟩

lemma exists_parsed_with (p : Position) (text : Text) (check : List Node → Bool)
    (h : ((tokenize p text).toOption.any fun tokens => (parse tokens).toOption.any check) = true) :
    ∃ tokens nodes, tokenize p text = .ok tokens ∧ parse tokens = .ok nodes ∧ check nodes = true := by
  obtain ⟨tokens, ht, hparse⟩ := exists_of_toOption_any h
  obtain ⟨nodes, hp, hcheck⟩ := exists_of_toOption_any hparse
  exact ⟨tokens, nodes, ht, hp, hcheck⟩

lemma exists_parsed (p : Position) (text : Text)
    (h : ((tokenize p text).toOption.any fun tokens => (parse tokens).toOption.isSome) = true) :
    ∃ tokens nodes, tokenize p text = .ok tokens ∧ parse tokens = .ok nodes := by
  obtain ⟨tokens, nodes, ht, hp, -⟩ := exists_parsed_with p text (fun _ => true) (by simpa using h)
  exact ⟨tokens, nodes, ht, hp⟩

def solidTokens (tokens : List Token) : List Token := tokens.filter (!·.isSpace)

/-- What has been parsed is derived from all tokens that are not blank. -/
theorem derives_of_parse (h : parse tokens = .ok nodes) {finish : Position}
    (hfinish : ∀ t ∈ (solidTokens tokens).getLast?, t.stop = finish) :
    Derives finish (solidTokens tokens) (nodes.map .node) [] := by
  obtain ⟨d, hfile⟩ := file_of_parse h
  obtain ⟨m, ⟨⟨b, hsteps, -⟩, -⟩, hnil⟩ := Parser.file_lists hfile
  have hderives := hsteps.derives hfinish
  rwa [hnil] at hderives

lemma exists_derives (h : parse tokens = .ok nodes) :
    ∃ finish, Derives finish (solidTokens tokens) (nodes.map .node) [] := by
  cases hlast : (solidTokens tokens).getLast? with
  | none => exact ⟨.unknown, derives_of_parse h (by simp [hlast])⟩
  | some t => exact ⟨t.stop, derives_of_parse h (by simp [hlast])⟩

theorem isFileMember_of_parse (h : parse tokens = .ok nodes) :
    nodes.all Node.isFileMember = true := by
  obtain ⟨d, hfile⟩ := file_of_parse h
  obtain ⟨m, ⟨-, hall⟩, -⟩ := Parser.file_lists hfile
  exact List.all_eq_true.2 hall

end DpLang
