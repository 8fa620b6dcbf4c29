import DpLang.Proofs.Alignment
import DpLang.Proofs.DerivationFile
import DpLang.Proofs.Roundtrip

/-!
# Lists that are written twice

Statements, parameters, results, fields and values on lines of their own are written twice: once to find
the columns of the comments among them, and once more with the comments in their columns. In lists that
have been read, only a comment follows something on its line, so the columns are settled after the first
time.
-/

namespace DpLang

section Marks

/-- The gap of an entry and whether it is a comment. -/
def Entry.mark (entry : Entry) : Gap × Bool := (entry.gap, entry.isComment)

/-- No comment among the entries ends a line. -/
def FlatComments (entries : List Entry) : Prop :=
  ∀ entry ∈ entries, entry.isComment = true → '\n' ∉ entry.item.text

variable {entry : Entry} {entries : List Entry} {previous : Option Entry} {text : Text}

lemma newline_notMem_comment (h : IsCommentText text) : '\n' ∉ text := h.1.newline_not_mem rfl

lemma flatComments_nil : FlatComments [] := fun _ h => absurd h List.not_mem_nil

lemma FlatComments.comment (h : FlatComments entries) (ht : IsCommentText text)
    (htext : entry.item.text = text) : FlatComments (entry :: entries) :=
  List.forall_mem_cons.2 ⟨fun _ => htext ▸ newline_notMem_comment ht, h⟩

lemma FlatComments.code (h : FlatComments entries) (hcode : entry.isComment = false) :
    FlatComments (entry :: entries) :=
  List.forall_mem_cons.2 ⟨fun hcomment => absurd hcomment (by rw [hcode]; exact Bool.false_ne_true), h⟩

lemma follow_of_marks (hgaps : GapsOk (previous.any Entry.isComment) (entries.map Entry.mark))
    (hflat : FlatComments entries) : Follow previous entries := by
  induction entries generalizing previous with
  | nil => trivial
  | cons entry entries ih =>
    obtain ⟨hgap, hrest⟩ := hgaps
    obtain ⟨hline, hflat⟩ := List.forall_mem_cons.1 hflat
    refine ⟨⟨fun hsame => ?_, hline⟩, ih hrest hflat⟩
    obtain ⟨hcomment, hprevious⟩ := hgap hsame
    exact ⟨hcomment, fun other hother => by simpa [Option.mem_def.1 hother] using hprevious⟩

end Marks

section Lists

lemma marks_valueEntriesOf (level : Nat) (first : Bool) (values : List ValuePlan) :
    (valueEntriesOf level first values).map Entry.mark = values.map ValuePlan.mark := by
  induction values generalizing first with
  | nil => rfl
  | cons value values ih =>
    cases value with
    | comment gap text =>
      rw [valueEntriesOf, List.map_cons, List.map_cons, ih]
      cases first <;> rfl
    | _ =>
      rw [valueEntriesOf, List.map_cons, List.map_cons, ih]
      rfl

lemma flatComments_valueEntriesOf (level : Nat) (first : Bool) {values : List ValuePlan}
    (h : ValuesWF values) : FlatComments (valueEntriesOf level first values) := by
  induction values generalizing first with
  | nil => exact flatComments_nil
  | cons value values ih =>
    cases value with
    | comment gap text =>
      rw [ValuesWF] at h
      exact (ih false h.2).comment h.1 (by cases first <;> rfl)
    | _ =>
      rw [ValuesWF] at h
      exact (ih false h.2).code rfl

lemma marks_blockEntriesOf (level : Nat) (rows : List (Option (List Nat))) (entries : List EntryPlan) :
    (blockEntriesOf level rows entries).map Entry.mark = entries.map EntryPlan.mark := by
  induction entries generalizing rows with
  | nil => rfl
  | cons entry entries ih =>
    cases entry with
    | _ =>
      rw [blockEntriesOf, List.map_cons, List.map_cons, ih]
      rfl

lemma flatComments_blockEntriesOf (level : Nat) (rows : List (Option (List Nat)))
    {entries : List EntryPlan} (h : EntriesWF entries) :
    FlatComments (blockEntriesOf level rows entries) := by
  induction entries generalizing rows with
  | nil => exact flatComments_nil
  | cons entry entries ih =>
    rw [blockEntriesOf.eq_def]
    cases entry with
    | comment gap text =>
      rw [EntriesWF] at h
      exact (ih rows.tail h.2).comment h.1 rfl
    | statement gap s =>
      rw [EntriesWF] at h
      exact (ih rows.tail h.2).code rfl

variable {α : Type} {P : α → Prop}

lemma marks_memberEntries (code : List Nat → α → Text) (rows : List (Option (List Nat)))
    (members : List (Member α)) :
    (memberEntries code rows members).map Entry.mark = members.map Member.mark := by
  induction members generalizing rows with
  | nil => rfl
  | cons member members ih =>
    cases member with
    | _ =>
      rw [memberEntries, List.map_cons, List.map_cons, ih]
      rfl

lemma flatComments_memberEntries (code : List Nat → α → Text) (rows : List (Option (List Nat)))
    {members : List (Member α)} (h : ∀ member ∈ members, member.Satisfies P) :
    FlatComments (memberEntries code rows members) := by
  induction members generalizing rows with
  | nil => exact flatComments_nil
  | cons member members ih =>
    obtain ⟨hmember, hrest⟩ := List.forall_mem_cons.1 h
    cases member with
    | comment gap text => exact (ih rows.tail hrest).comment hmember rfl
    | item gap item => exact (ih rows.tail hrest).code rfl

end Lists

section Settling

/-- The second time a list is written from a page, its layout is settled. -/
structure ListStyle.SettledOn (style : ListStyle) (entries : List Entry) (page : Page) : Prop where
  /-- No line gets another column. -/
  columns : ∀ line, (style.pass entries page (style.measure entries page)).2.column? line =
    (style.measure entries page).column? line
  /-- The list takes as many lines as the first time. -/
  lines : (style.write entries page).line = (style.pass entries page.fork .empty).1.line
  /-- Any further time with the same columns the same is written. -/
  again : ∀ columns : CommentColumns,
    (∀ line, columns.column? line = (style.measure entries page).column? line) →
      (style.pass entries page columns).1 = style.write entries page
  /-- Of two comments on neighbouring lines, both start in the same column, unless the upper one starts no
  further right than the floor or stands on the last line of a member over several lines. -/
  aligned : ∀ before gap text middle gap' text' after,
    entries = before ++ ⟨gap, .aligned text⟩ :: (middle ++ ⟨gap', .aligned text'⟩ :: after) →
      let upper := style.front before gap page (style.measure entries page)
      let lower := style.front (before ++ ⟨gap, .aligned text⟩ :: middle) gap' page
        (style.measure entries page)
      (upper.write text).value <+: (style.write entries page).value ∧
        (lower.write text').value <+: (style.write entries page).value ∧
        (lower.line = upper.line + 1 → lower.lineLength = upper.lineLength ∨
          upper.lineLength ≤ style.floor ∨ BehindBreak style before gap)

variable {style : ListStyle} {entries before after : List Entry} {gap : Gap} {text : Text}

lemma prefix_front (style : ListStyle) (h : Follow none entries) (page : Page) (columns : CommentColumns)
    (hsplit : entries = before ++ ⟨gap, .aligned text⟩ :: after) :
    ((style.front before gap page columns).write text).value <+: (style.pass entries page columns).1.value := by
  have hnone : '\n' ∉ text := by
    rw [hsplit] at h
    obtain ⟨-, hcomment, -⟩ := follow_append.1 h
    exact hcomment.line rfl
  have hlist : entries = (before ++ [⟨gap, .aligned text⟩]) ++ after := by
    rw [hsplit, List.append_assoc, List.singleton_append]
  rw [hlist, pass_append, ← style.pass_front hnone]
  exact style.prefix_pass after _ _

lemma settledOn_of_follow (h : Follow none entries) (page : Page) : style.SettledOn entries page := by
  have hfork : InStep none page.fork page := ⟨rfl, fun _ => page.lineLength_fork⟩
  have hemit (columns : CommentColumns)
      (hcolumns : ∀ line, columns.column? line = (style.measure entries page).column? line) :=
    (measured_empty style page.fork).emit h hfork (settles_column? _ (style.measure entries page)) hcolumns
  constructor
  case columns => exact (hemit _ fun _ => rfl).2.1
  case lines => exact (hemit _ fun _ => rfl).2.2.line.symm
  case again =>
    intro columns hcolumns
    rw [(hemit columns hcolumns).1, ListStyle.write, (hemit _ fun _ => rfl).1]
  case aligned =>
    intro before gap text middle gap' text' after hsplit
    have hsplit' : entries =
        (before ++ ⟨gap, .aligned text⟩ :: middle) ++ ⟨gap', .aligned text'⟩ :: after := by
      rw [hsplit, List.append_assoc, List.cons_append]
    exact ⟨prefix_front style h page _ hsplit, prefix_front style h page _ hsplit',
      neighbours style h page hsplit⟩

end Settling

section Nodes

/-- The entries of the statements of a block that starts on a line. -/
def statementList (level : Nat) (startLine : Int) (body : List Node) : Except LayoutFault (List Entry) :=
  blockEntries level startLine (Columns.widths Columns.ofStatement (withoutImports body)) body

/-- The lists below a node that are written twice, each with its style and its entries. -/
inductive Node.RendersTwice : Node → ListStyle → Except LayoutFault (List Entry) → Prop where
  | block (level : Nat) (start : Position) (body : List Node) (stop : Position) :
      RendersTwice (.block start body stop) (blockStyle level) (statementList level start.line body)
  | loop (level : Nat) (start : Position) (test : Option Node) (bodyStart : Position) (body : List Node)
      (stop : Position) : RendersTwice (.forLoop start test bodyStart body stop) (blockStyle level)
        (statementList level bodyStart.line body)
  | thenBlock (level : Nat) (start : Position) (test : Node) (thenStart : Position) (thenBody : List Node)
      (thenStop : Position) (elseBody : List Node) (stop : Position) :
      RendersTwice (.ifElse start test thenStart thenBody thenStop elseBody stop) (blockStyle level)
        (statementList level thenStart.line thenBody)
  | elseBlock (level : Nat) (start : Position) (test : Node) (thenStart : Position) (thenBody : List Node)
      (thenStop : Position) (elseBody : List Node) (stop : Position) :
      RendersTwice (.ifElse start test thenStart thenBody thenStop elseBody stop) (blockStyle level)
        (statementList level thenStop.line elseBody)
  | arguments (level : Nat) (name : Selector) (args : List Node) (stop : Position)
      (h : spansLines name.start.line args = true) :
      RendersTwice (.call name args stop) (valueStyle level) (valueEntries level name.start.line true args)
  | assigned (level : Nat) (start : Position) (targets values : List Node) (stop : Position)
      (h : spansLines start.line values = true) :
      RendersTwice (.assign start targets values stop) (valueStyle level)
        (valueEntries level start.line true values)
  | returned (level : Nat) (start : Position) (values : List Node) (stop : Position)
      (h : spansLines start.line values = true) :
      RendersTwice (.returnValues start values stop) (valueStyle level)
        (valueEntries level start.line true values)
  | defined (level : Nat) (start : Position) (names : List Text) (values : List Node) (stop : Position)
      (h : spansLines start.line values = true) :
      RendersTwice (.variableDef start names values stop) (valueStyle level)
        (valueEntries level start.line true values)
  | parameters (head : FunctionHead) (params results body : List Node)
      (h : spreadParameters head.start.line params = true) :
      RendersTwice (.functionDef head params results body) memberStyle
        (parameterEntries head.start.line (Columns.widths Columns.ofParameter params) params)
  | results (head : FunctionHead) (params results body : List Node)
      (h : spreadResults head.paramsStop.line results = true) :
      RendersTwice (.functionDef head params results body) memberStyle
        (resultEntries head.paramsStop.line results)
  | functionBlock (level : Nat) (head : FunctionHead) (params results body : List Node) :
      RendersTwice (.functionDef head params results body) (blockStyle level)
        (statementList level head.bodyStart.line (functionBody results body))
  | fields (start : Position) (isPublic : Bool) (name : Text) (fields : List Node) (stop : Position) :
      RendersTwice (.typeDef start isPublic name fields stop) memberStyle
        (fieldEntries start.line (Columns.widths Columns.ofField (withoutImports fields))
          (withoutImports fields))

/-- The entries are written, and each may follow the one before it. -/
def RendersInOrder (rendered : Except LayoutFault (List Entry)) : Prop :=
  ∃ entries, rendered = .ok entries ∧ Follow none entries

/-- The lists of statements that are written with a node, each with the line on which it starts. -/
def Node.blocks : Node → List (Int × List Node)
  | .block start body _ => [(start.line, body)]
  | .forLoop _ _ bodyStart body _ => [(bodyStart.line, body)]
  | .ifElse _ _ thenStart thenBody thenStop elseBody _ => [(thenStart.line, thenBody), (thenStop.line, elseBody)]
  | .functionDef head _ results body => [(head.bodyStart.line, functionBody results body)]
  | _ => []

/-- The lists of values right below a node, each with the line on which it starts. -/
def Node.valueLists : Node → List (Int × List Node)
  | .call name args _ => [(name.start.line, args)]
  | .assign start _ values _ => [(start.line, values)]
  | .returnValues start values _ => [(start.line, values)]
  | .variableDef start _ values _ => [(start.line, values)]
  | _ => []

section Planned

variable {n : Node} {startLine : Int} {nodes : List Node}

lemma Node.Planned.blocks (h : n.Planned) (hn : (startLine, nodes) ∈ n.blocks) :
    areStatements nodes = true ∧ BlockWF (entryPlans startLine nodes) := by
  cases n with
  | block start body stop =>
    obtain ⟨rfl, rfl⟩ := Prod.mk.inj (List.mem_singleton.1 hn)
    obtain ⟨hs, hwf⟩ := h.of_statement (by simp [Node.isExpr]) id rfl
    rw [Node.isStatement] at hs
    rw [Node.statementPlan, StatementPlan.WF] at hwf
    exact ⟨hs, hwf⟩
  | forLoop start test bodyStart body stop =>
    obtain ⟨rfl, rfl⟩ := Prod.mk.inj (List.mem_singleton.1 hn)
    obtain ⟨hs, hwf⟩ := h.of_statement (by simp [Node.isExpr]) id rfl
    cases test with
    | none =>
      rw [Node.isStatement] at hs
      rw [Node.statementPlan, StatementPlan.WF] at hwf
      exact ⟨hs, hwf⟩
    | some test =>
      rw [Node.isStatement, Bool.and_eq_true] at hs
      rw [Node.statementPlan, StatementPlan.WF] at hwf
      exact ⟨hs.2, hwf.2⟩
  | ifElse start test thenStart thenBody thenStop elseBody stop =>
    obtain ⟨hs, hwf⟩ := h.of_statement (by simp [Node.isExpr]) id rfl
    rw [Node.isStatement, Bool.and_eq_true, Bool.and_eq_true] at hs
    rw [Node.statementPlan, StatementPlan.WF] at hwf
    rcases List.mem_pair.1 hn with heq | heq
    · obtain ⟨rfl, rfl⟩ := Prod.mk.inj heq
      exact ⟨hs.1.2, hwf.2.1⟩
    · obtain ⟨rfl, rfl⟩ := Prod.mk.inj heq
      exact ⟨hs.2, hwf.2.2⟩
  | functionDef head params results body =>
    obtain ⟨rfl, rfl⟩ := Prod.mk.inj (List.mem_singleton.1 hn)
    obtain ⟨hwf, hmember, -⟩ := h.of_definition (by simp [Node.isExpr]) (by simp [Node.isStatement]) rfl
    rw [Node.isFileMember, Bool.and_eq_true] at hmember
    exact ⟨areStatements_sublist (functionBody_sublist results body) hmember.2, hwf.body⟩
  | _ => cases hn

lemma Node.Planned.valueLists (h : n.Planned) (hn : (startLine, nodes) ∈ n.valueLists) :
    areValues nodes = true ∧
      ListShape (spansLines startLine nodes) (valuePlans (spansLines startLine nodes) startLine nodes) ∧
      ValuesWF (valuePlans (spansLines startLine nodes) startLine nodes) := by
  cases n with
  | call name args stop =>
    obtain ⟨rfl, rfl⟩ := Prod.mk.inj (List.mem_singleton.1 hn)
    obtain ⟨he, hwf⟩ := h.of_expr (by simp [Node.isStatement]) id rfl
    rw [Node.isExpr] at he
    rw [Node.exprPlan, ExprPlan.WF] at hwf
    exact ⟨he, hwf.2⟩
  | assign start targets values stop =>
    obtain ⟨rfl, rfl⟩ := Prod.mk.inj (List.mem_singleton.1 hn)
    obtain ⟨hs, hwf⟩ := h.of_statement (by simp [Node.isExpr]) id rfl
    rw [Node.isStatement, Bool.and_eq_true] at hs
    rw [Node.statementPlan, StatementPlan.WF] at hwf
    exact ⟨hs.2, hwf.2.2⟩
  | returnValues start values stop =>
    obtain ⟨rfl, rfl⟩ := Prod.mk.inj (List.mem_singleton.1 hn)
    obtain ⟨hs, hwf⟩ := h.of_statement (by simp [Node.isExpr]) id rfl
    rw [Node.isStatement] at hs
    rw [Node.statementPlan, StatementPlan.WF] at hwf
    exact ⟨hs, hwf⟩
  | variableDef start names values stop =>
    obtain ⟨rfl, rfl⟩ := Prod.mk.inj (List.mem_singleton.1 hn)
    obtain ⟨hs, hwf⟩ := h.of_statement (by simp [Node.isExpr]) id rfl
    rw [Node.isStatement] at hs
    rw [Node.statementPlan, StatementPlan.WF] at hwf
    exact ⟨hs, hwf.2⟩
  | _ => cases hn

lemma rendersInOrder_statements (h : n.Planned) (hn : (startLine, nodes) ∈ n.blocks) (level : Nat) :
    RendersInOrder (statementList level startLine nodes) := by
  obtain ⟨hs, hwf⟩ := h.blocks hn
  rw [statementList, statementWidths_eq startLine hs, blockEntries_eq _ _ nodes hs _ (widthsOf_fits _)]
  refine ⟨_, rfl, follow_of_marks ?_ (flatComments_blockEntriesOf level _ hwf.2)⟩
  rw [marks_blockEntriesOf]
  exact hwf.1

lemma rendersInOrder_values (h : n.Planned) (hn : (startLine, nodes) ∈ n.valueLists)
    (hspread : spansLines startLine nodes = true) (level : Nat) :
    RendersInOrder (valueEntries level startLine true nodes) := by
  obtain ⟨hvalues, hshape, hwf⟩ := h.valueLists hn
  rw [hspread] at hshape hwf
  rw [valueEntries_eq _ _ _ nodes hvalues]
  refine ⟨_, rfl, follow_of_marks ?_ (flatComments_valueEntriesOf level _ hwf)⟩
  rw [marks_valueEntriesOf]
  exact hshape.2

end Planned

lemma rendersInOrder_members {α : Type} {P : α → Prop} {code : List Nat → α → Text}
    {rows : List (Option (List Nat))} {members : List (Member α)}
    (hgaps : GapsOk false (members.map Member.mark)) (heach : ∀ member ∈ members, member.Satisfies P) :
    RendersInOrder (.ok (memberEntries code rows members)) := by
  refine ⟨_, rfl, follow_of_marks ?_ (flatComments_memberEntries code rows heach)⟩
  rw [marks_memberEntries]
  exact hgaps

lemma rendersInOrder_function {head : FunctionHead} {params results body : List Node}
    (h : Parser.IsDefinition (.functionDef head params results body)) :
    (spreadParameters head.start.line params = true →
        RendersInOrder (parameterEntries head.start.line (Columns.widths Columns.ofParameter params) params)) ∧
      (spreadResults head.paramsStop.line results = true →
        RendersInOrder (resultEntries head.paramsStop.line results)) := by
  obtain ⟨hwf, hmember, -⟩ := h
  rw [Node.isFileMember, Bool.and_eq_true, Bool.and_eq_true] at hmember
  obtain ⟨⟨hparams, hresults⟩, -⟩ := hmember
  refine ⟨fun hspread => ?_, fun hspread => ?_⟩
  · have hplan := hwf.params
    simp only [functionPlan, hspread] at hplan
    rw [parameterRows_eq head.start.line hparams, parameterEntries_eq _ hparams (widthsOf_fits _)]
    exact rendersInOrder_members hplan.gaps hplan.each
  · have hplan := hwf.results
    simp only [functionPlan, hspread] at hplan
    rw [resultEntries_eq _ hresults]
    exact rendersInOrder_members hplan.gaps hplan.each

lemma rendersInOrder_fields {start : Position} {isPublic : Bool} {name : Text} {fields : List Node}
    {stop : Position} (h : Parser.IsDefinition (.typeDef start isPublic name fields stop)) :
    RendersInOrder (fieldEntries start.line (Columns.widths Columns.ofField (withoutImports fields))
      (withoutImports fields)) := by
  obtain ⟨-, hfields, hgaps, heach, -⟩ := h
  rw [fieldRows_eq start.line hfields,
    fieldEntries_eq start.line (fun n hn => field_cases hfields hn) (widthsOf_fits _)]
  exact rendersInOrder_members hgaps heach

lemma Node.RendersTwice.inOrder {n : Node} {style : ListStyle} {rendered : Except LayoutFault (List Entry)}
    (hn : n.RendersTwice style rendered) (h : n.Planned) : RendersInOrder rendered := by
  cases hn with
  | block level start body stop => exact rendersInOrder_statements h List.mem_cons_self level
  | loop level start test bodyStart body stop => exact rendersInOrder_statements h List.mem_cons_self level
  | thenBlock level => exact rendersInOrder_statements h List.mem_cons_self level
  | elseBlock level => exact rendersInOrder_statements h (List.mem_cons_of_mem _ List.mem_cons_self) level
  | arguments level name args stop hspread => exact rendersInOrder_values h List.mem_cons_self hspread level
  | assigned level start targets values stop hspread =>
    exact rendersInOrder_values h List.mem_cons_self hspread level
  | returned level start values stop hspread => exact rendersInOrder_values h List.mem_cons_self hspread level
  | defined level start names values stop hspread =>
    exact rendersInOrder_values h List.mem_cons_self hspread level
  | parameters head params results body hspread =>
    have hd := h.of_definition (by simp [Node.isExpr]) (by simp [Node.isStatement]) rfl
    exact (rendersInOrder_function hd).1 hspread
  | results head params results body hspread =>
    have hd := h.of_definition (by simp [Node.isExpr]) (by simp [Node.isStatement]) rfl
    exact (rendersInOrder_function hd).2 hspread
  | functionBlock level => exact rendersInOrder_statements h List.mem_cons_self level
  | fields start isPublic name fields stop =>
    have hd := h.of_definition (by simp [Node.isExpr]) (by simp [Node.isStatement]) rfl
    exact rendersInOrder_fields hd

/-- All lists below nodes that have been read are written, and once their comments have columns their
layout is settled. -/
theorem lists_settle {n : Node} (h : Parsed n) {style : ListStyle}
    {rendered : Except LayoutFault (List Entry)} (hn : n.RendersTwice style rendered) :
    ∃ entries, rendered = .ok entries ∧ ∀ page, style.SettledOn entries page := by
  obtain ⟨entries, hrendered, hfollow⟩ := hn.inOrder h.planned
  exact ⟨entries, hrendered, fun page => settledOn_of_follow hfollow page⟩

/-- Two statements with comments, of which the second one moves the first one's comment to the right. -/
theorem lists_settle_statements :
    ∃ tokens head params results body entries,
      tokenize (.startOf "f") "f() () \x7b\n  a = 1 // x\n  bcd = 2 // y\n\x7d\n" = .ok tokens ∧
      parse tokens = .ok [.functionDef head params results body] ∧
      commentsIn [.functionDef head params results body] = [("// x" : Text), ("// y" : Text)] ∧
      statementList 1 head.bodyStart.line (functionBody results body) = .ok entries ∧
      ∀ page, (blockStyle 1).SettledOn entries page := by
  obtain ⟨tokens, nodes, ht, hp, hcheck⟩ := exists_parsed_with (.startOf "f")
    "f() () \x7b\n  a = 1 // x\n  bcd = 2 // y\n\x7d\n"
    (fun nodes => decide (nodes.map Node.kind = [.functionDef]) &&
      decide (commentsIn nodes = [("// x" : Text), ("// y" : Text)])) (by decide +kernel)
  simp only [Bool.and_eq_true, decide_eq_true_eq] at hcheck
  obtain ⟨hkind, hcomments⟩ := hcheck
  obtain ⟨n, rfl, hn⟩ := List.map_eq_singleton_iff.1 hkind
  cases n with
  | functionDef head params results body =>
    have hmem : Node.functionDef head params results body ∈
        Node.walkAll [.functionDef head params results body] := by
      simp [Node.walkAll, Node.walk]
    obtain ⟨entries, hentries, hsettled⟩ :=
      lists_settle (.inFile ht hp hmem) (.functionBlock 1 head params results body)
    exact ⟨tokens, head, params, results, body, entries, ht, hp, hcomments, hentries, hsettled⟩
  | literal start kind source stop => cases kind <;> cases hn
  | prefixed start op operand stop => cases op <;> cases hn
  | jump start kind stop => cases kind <;> cases hn
  | _ => cases hn

end Nodes

end DpLang
