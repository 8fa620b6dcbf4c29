import DpLang.Proofs.LocalLayout

/-!
# Layout without stored texts

A list over several lines is written twice, but its members are laid out once, at the start of a line, and
their texts are put on the page both times. Here is the plain layout, which keeps no text: it lays out all
members anew whenever a list is written, and all of an expression anew behind a parenthesis that it turns out
to need. Lists in lists are laid out more and more often that way. The main statement is that both layouts
write the same for all lists that have been read, and what they write depends on the current line only.
-/

namespace DpLang

namespace Afresh

section Passes

variable (pass : Page → CommentColumns → Page × CommentColumns)

/-- Writes a list to measure its columns, and then for good. -/
def twice (page : Page) : Page := (pass page (pass page.fork .empty).2).1

/-- Writes values between parentheses on several lines. -/
def delimited (level : Nat) (page : Page) : Page :=
  (((twice pass (page.write ['('])).write ['\n']).indent (level - 1 : Nat)).write [')']

/-- Writes a block with the given members. -/
def braces (level : Nat) (members : List EntryPlan) (page : Page) : Page :=
  if members.isEmpty then page.write "\x7b\x7d"
  else (((twice pass (page.write ['\x7b'])).write ['\n']).indent (level - 1 : Nat)).write ['\x7d']

/-- Writes on a fork to see the first character, and then for good, in parentheses if it needs them. -/
def guarded (needsParens : Option Char → Bool) (render : Page → Page) (page : Page) : Page :=
  if needsParens (render page.fork).value.head? then (render (page.write ['('])).write [')'] else render page

end Passes

mutual
def expr (level outer : Nat) (tight right : Bool) (page : Page) : ExprPlan → Page
  | .prefixed op operand => expr level ultimatePrecedence tight false (op.write page) operand
  | .binary left op operand =>
    let style := BinaryStyle.choose op.precedence outer tight right
    let page := if style.parens then page.write ['('] else page
    let page := expr level op.precedence style.tight false page left
    let page := page.write (if style.tight then op.text else ' ' :: op.text ++ [' '])
    let page := expr level op.precedence style.tight true page operand
    if style.parens then page.write [')'] else page
  | .call names spread args =>
    let page := page.write (Text.join ['.'] names)
    if spread then delimited (fun page columns => valuesPass level true args page columns) level page
    else (inline true (page.write ['(']) args).write [')']
  | .index names subscript =>
    (expr level 0 false false (page.write (Text.join ['.'] names ++ ['['])) subscript).write [']']
  | e => e.write level outer tight right page

/-- Writes values on one line. -/
def inline (first : Bool) (page : Page) : List ValuePlan → Page
  | [] => page
  | .comment _ _ :: values => inline first page values
  | .dereference _ name :: values =>
    let page := if first then page else page.write ", "
    inline false (page.write (dereferenceText name)) values
  | .value _ value :: values =>
    let page := if first then page else page.write ", "
    inline false (expr 0 0 false false page value) values

/-- Writes values on several lines once, each where the page stands then. -/
def valuesPass (level : Nat) (first : Bool) :
    List ValuePlan → Page → CommentColumns → Page × CommentColumns
  | [], page, columns => (page, columns)
  | .comment gap text :: values, page, columns =>
    let (page, columns) :=
      (valueStyle level).writeEntry ⟨gap, if first then .alone text else .aligned text⟩ page columns
    valuesPass level false values page columns
  | .dereference gap name :: values, page, columns =>
    valuesPass level false values ((gap.write level page).write (dereferenceText name ++ [','])) columns
  | .value gap value :: values, page, columns =>
    let page := expr (level + 1) 0 false false (gap.write level page) value
    valuesPass level false values (page.write [',']) columns
end

/-- Writes an expression, in parentheses if it would start with a brace. -/
def guardedExpr (level : Nat) (page : Page) (value : ExprPlan) : Page :=
  guarded (· == some '\x7b') (expr level 0 false false · value) page

/-- Writes a list of values. -/
def values (level : Nat) (guards : List Char) (page : Page) (spread : Bool) (values : List ValuePlan) : Page :=
  if spread then delimited (valuesPass level true values) level page
  else guarded (·.any guards.contains) (inline true · values) page

/-- Writes a target of an assignment. -/
def target (level : Nat) (page : Page) : TargetPlan → Page
  | .call names spread args => expr level 0 false false page (.call names spread args)
  | .index names subscript =>
    (expr 0 0 true false (page.write (Text.join ['.'] names ++ ['['])) subscript).write [']']
  | plan => plan.write level page

/-- Writes the targets of an assignment. -/
def targets (level : Nat) (first : Bool) (page : Page) : List TargetPlan → Page
  | [] => page
  | plan :: plans => targets level false (target level (if first then page else page.write ", ") plan) plans

mutual
def statement (level : Nat) (row : Option (List Nat)) (page : Page) : StatementPlan → Page
  | .assign objects spread subjects =>
    values (level + 1) ['(', '\x7b'] ((targets (level + 1) true page objects).write " = ") spread subjects
  | .block body => braces (fun page columns => statementsPass (level + 1) (widthsOf (body.map EntryPlan.row)) body
      page columns) (level + 1) body page
  | .expression value => guardedExpr (level + 1) page value
  | .loop body => braces (fun page columns => statementsPass (level + 1) (widthsOf (body.map EntryPlan.row)) body
      page columns) (level + 1) body (page.write "for ")
  | .loopWhile test body =>
    let page := guardedExpr (level + 1) (page.write "for ") test
    braces (fun page columns => statementsPass (level + 1) (widthsOf (body.map EntryPlan.row)) body page columns)
      (level + 1) body (page.write [' '])
  | .ifElse test thenBody elseBody =>
    let page := guardedExpr (level + 1) (page.write "if ") test
    let page := braces (fun page columns => statementsPass (level + 1) (widthsOf (thenBody.map EntryPlan.row))
      thenBody page columns) (level + 1) thenBody (page.write [' '])
    if elseBody.isEmpty then page
    else braces (fun page columns => statementsPass (level + 1) (widthsOf (elseBody.map EntryPlan.row)) elseBody
      page columns) (level + 1) elseBody (page.write " else ")
  | .returnValues spread results =>
    values (level + 1) ['\x7b'] (page.write (if results.isEmpty then "return" else "return ")) spread results
  | .define names spread inits =>
    let page := writeRow page (StatementPlan.columns (.define names spread inits)) (row.getD [])
    values (level + 1) ['(', '\x7b'] (page.write [' ']) spread inits
  | s => s.write level row page

/-- Writes the members of a block once, each where the page stands then. -/
def statementsPass (level : Nat) (rows : List (Option (List Nat))) :
    List EntryPlan → Page → CommentColumns → Page × CommentColumns
  | [], page, columns => (page, columns)
  | .comment gap text :: members, page, columns =>
    let (page, columns) := (blockStyle level).writeEntry ⟨gap, .aligned text⟩ page columns
    statementsPass level rows.tail members page columns
  | .statement gap s :: members, page, columns =>
    let start := gap.write level page
    let written := statement level (rows.head?.getD none) start s
    statementsPass level rows.tail members written ((blockStyle level).columnsBehind start written columns)
end

def block (level : Nat) (page : Page) (body : List EntryPlan) : Page :=
  braces (statementsPass level (widthsOf (body.map EntryPlan.row)) body) level body page

section Passes

variable {pass : Page → CommentColumns → Page × CommentColumns} {style : ListStyle} {entries : List Entry}
  {f : Page → Page} {gap : Gap}

lemma twice_eq (h : pass = style.pass entries) (page : Page) : twice pass page = style.write entries page := by
  rw [h]
  rfl

/-- Behind the parenthesis the same text is written: a blank would have stood in front of it already, and then
it needs no parenthesis. -/
lemma guarded_eq {needsParens : Option Char → Bool} (hblank : needsParens (some ' ') = false) (hf : IsSteady f)
    (page : Page) :
    guarded needsParens f page =
      let text := (f page.fork).value
      page.write (if needsParens text.head? then '(' :: text ++ [')'] else text) := by
  have hfork : f page = page.write (f page.fork).value := by
    obtain ⟨text, hf⟩ := hf.isLocal
    rw [hf, hf, Page.currentLine_fork]
    exact congrArg page.write (Page.value_behind _ _ _).symm
  obtain ⟨apart, text, hf⟩ := hf
  unfold guarded
  dsimp only
  split
  · next hparens =>
    have hvalue : (f page.fork).value = text := by
      have hwritten : (f page.fork).value =
          if apart && page.fork.lastChar? == some '&' then ' ' :: text else text := by
        rw [hf]
        exact Page.value_behind _ _ _
      rw [hwritten] at hparens ⊢
      split
      · next hlast =>
        rw [if_pos hlast, List.head?_cons, hblank] at hparens
        cases hparens
      · rfl
    have hopen : f (page.write ['(']) = (page.write ['(']).write text := by
      rw [hf, Page.lastChar?_write _ (List.cons_ne_nil _ _), if_neg (by simp)]
    rw [hopen, hvalue, Page.write_append, Page.write_append]
    rfl
  · rw [hfork]

/-- At the start of a line a text is written that is known from another line with the same indentation. -/
lemma eq_of_isLocal (hf : IsLocal f) (hgap : gap ≠ .sameLine) (level : Nat) (page : Page) :
    f (gap.write level page) = (gap.write level page).write (f (.indented level)).value := by
  obtain ⟨text, hf⟩ := hf
  have hline : (gap.write level page).currentLine = (Page.indented level).currentLine := by
    rw [Page.indented, Page.currentLine_behind]
    cases gap with
    | sameLine => exact absurd rfl hgap
    | nextLine => simp [Gap.write, Page.indent, Page.write, Page.currentLine]
    | blankLine => simp [Gap.write, Page.indent, Page.write, Page.currentLine]
  rw [hf, hf, hline]
  exact congrArg _ (Page.value_behind _ _ _).symm

end Passes

/-- Only comments stay on the line of the member before them. -/
def Apart (marks : List (Gap × Bool)) : Prop := ∀ mark ∈ marks, mark.2 = false → mark.1 ≠ .sameLine

lemma apart_of_gapsOk {after : Bool} {marks : List (Gap × Bool)} (h : GapsOk after marks) : Apart marks := by
  induction marks generalizing after with
  | nil => simp [Apart]
  | cons mark marks ih =>
    refine List.forall_mem_cons.2 ⟨fun hmark hgap => ?_, ih h.2⟩
    exact Bool.noConfusion (hmark.symm.trans (h.1 hgap).1)

lemma apart_of_shape {spread : Bool} {values : List ValuePlan} (h : ListShape spread values)
    (hspread : spread = true) : Apart (values.map ValuePlan.mark) := by
  rw [ListShape, if_pos hspread] at h
  exact apart_of_gapsOk h.2

section Expressions

lemma call_eq {level : Nat} {spread : Bool} {args : List ValuePlan} (names : List Text) (outer : Nat)
    (tight right : Bool) (page : Page)
    (hpass : spread = true →
      valuesPass level true args = (valueStyle level).pass (valueEntriesOf level true args))
    (hline : ∀ page, inline true page args = writeInline true page args) :
    expr level outer tight right page (.call names spread args) =
      (ExprPlan.call names spread args).write level outer tight right page := by
  rw [expr, ExprPlan.write]
  cases spread with
  | true =>
    rw [if_pos rfl, if_pos rfl, delimited, twice_eq (hpass rfl)]
    rfl
  | false => rw [if_neg Bool.false_ne_true, if_neg Bool.false_ne_true, hline]

mutual
lemma expr_eq (level outer : Nat) (tight right : Bool) (page : Page) :
    ∀ e : ExprPlan, e.WF → expr level outer tight right page e = e.write level outer tight right page := by
  intro e h
  cases e with
  | prefixed op operand =>
    rw [ExprPlan.WF] at h
    rw [expr, ExprPlan.write, expr_eq _ _ _ _ _ operand h.2]
  | binary left op operand =>
    rw [ExprPlan.WF] at h
    rw [expr, ExprPlan.write, expr_eq _ _ _ _ _ left h.1, expr_eq _ _ _ _ _ operand h.2]
  | call names spread args =>
    rw [ExprPlan.WF] at h
    apply call_eq
    · exact fun hspread => valuesPass_eq level true args (apart_of_shape h.2.1 hspread) h.2.2
    · exact fun page => inline_eq true page args h.2.2
  | index names subscript =>
    rw [ExprPlan.WF] at h
    rw [expr, ExprPlan.write, expr_eq _ _ _ _ _ subscript h.2]
  | _ => rfl

lemma inline_eq (first : Bool) (page : Page) :
    ∀ values : List ValuePlan, ValuesWF values → inline first page values = writeInline first page values := by
  intro values h
  match values with
  | [] => rfl
  | .comment gap text :: values =>
    rw [ValuesWF] at h
    rw [inline, writeInline, inline_eq _ _ values h.2]
  | .dereference gap name :: values =>
    rw [ValuesWF] at h
    rw [inline, writeInline, inline_eq _ _ values h.2]
  | .value gap value :: values =>
    rw [ValuesWF] at h
    rw [inline, writeInline, expr_eq _ _ _ _ _ value h.1, inline_eq _ _ values h.2]

lemma valuesPass_eq (level : Nat) (first : Bool) :
    ∀ values : List ValuePlan, Apart (values.map ValuePlan.mark) → ValuesWF values →
      valuesPass level first values = (valueStyle level).pass (valueEntriesOf level first values) := by
  intro values hgaps h
  funext page columns
  match values with
  | [] => rfl
  | .comment gap text :: values =>
    rw [ValuesWF] at h
    rw [valuesPass, valueEntriesOf, pass_cons,
      valuesPass_eq level false values (List.forall_mem_cons.1 hgaps).2 h.2]
  | .dereference gap name :: values =>
    rw [ValuesWF] at h
    rw [valuesPass, valueEntriesOf, pass_cons,
      valuesPass_eq level false values (List.forall_mem_cons.1 hgaps).2 h.2]
    rfl
  | .value gap value :: values =>
    rw [ValuesWF] at h
    have hlocal := (value.write_isSteady (level + 1) 0 false false h.1).isLocal
    obtain ⟨hgap, hgaps⟩ := List.forall_mem_cons.1 hgaps
    have hstored := eq_of_isLocal hlocal (hgap rfl) level page
    dsimp only [ValuePlan.mark] at hstored
    rw [valuesPass, expr_eq _ _ _ _ _ value h.1, hstored,
      valuesPass_eq level false values hgaps h.2, valueEntriesOf, pass_cons, Page.write_append]
    rfl
end

lemma values_eq (level : Nat) {guards : List Char} (hguards : ' ' ∉ guards) (page : Page) {spread : Bool}
    {plans : List ValuePlan} (hgaps : spread = true → Apart (plans.map ValuePlan.mark)) (h : ValuesWF plans) :
    values level guards page spread plans = writeValuesOf level guards page spread plans := by
  unfold values writeValuesOf
  cases spread with
  | true =>
    rw [if_pos rfl, if_pos rfl, delimited, twice_eq (valuesPass_eq level true plans (hgaps rfl) h)]
    rfl
  | false =>
    rw [if_neg Bool.false_ne_true, if_neg Bool.false_ne_true, funext fun page => inline_eq true page plans h]
    exact guarded_eq (by simpa using hguards) (writeInline_isSteady true plans h) page

lemma guardedExpr_eq (level : Nat) (page : Page) {e : ExprPlan} (h : e.WF) :
    guardedExpr level page e = e.writeGuarded level page := by
  rw [guardedExpr, funext fun page => expr_eq level 0 false false page e h]
  exact guarded_eq rfl (e.write_isSteady level 0 false false h) page

end Expressions

section Statements

lemma target_eq (level : Nat) (page : Page) {plan : TargetPlan} (h : plan.WF) :
    target level page plan = plan.write level page := by
  cases plan with
  | call names spread args => exact expr_eq level 0 false false page _ h.1
  | index names subscript => rw [target, TargetPlan.write, expr_eq _ _ _ _ _ subscript h.2]
  | _ => rfl

lemma targets_eq (level : Nat) (first : Bool) (page : Page) {plans : List TargetPlan}
    (h : ∀ plan ∈ plans, plan.WF) :
    targets level first page plans = writeTargetsOf level first page plans := by
  induction plans generalizing first page with
  | nil => rfl
  | cons plan plans ih =>
    rw [List.forall_mem_cons] at h
    rw [targets, writeTargetsOf, target_eq _ _ h.1, ih _ _ h.2]

lemma braces_eq {level : Nat} {rows : List (Option (List Nat))} {members : List EntryPlan}
    (h : statementsPass level rows members = (blockStyle level).pass (blockEntriesOf level rows members))
    (page : Page) :
    braces (statementsPass level rows members) level members page =
      writeBraces level (blockEntriesOf level rows members) page := by
  have hempty : (blockEntriesOf level rows members).isEmpty = members.isEmpty := by
    rcases members with _ | ⟨_ | _, members⟩ <;> rfl
  rw [braces, writeBraces, hempty, twice_eq h]

mutual
lemma statement_eq (level : Nat) (row : Option (List Nat)) (page : Page) :
    ∀ s : StatementPlan, s.WF → statement level row page s = s.write level row page := by
  intro s h
  cases s with
  | assign objects spread subjects =>
    rw [StatementPlan.WF] at h
    rw [statement, StatementPlan.write, targets_eq _ _ _ h.1.2,
      values_eq _ (by decide) _ (apart_of_shape h.2.2.1) h.2.2.2]
  | block body =>
    rw [StatementPlan.WF] at h
    rw [statement, StatementPlan.write, braces_eq (statementsPass_eq _ _ body (apart_of_gapsOk h.1) h.2)]
  | expression value =>
    rw [StatementPlan.WF] at h
    rw [statement, StatementPlan.write, guardedExpr_eq _ _ h]
  | loop body =>
    rw [StatementPlan.WF] at h
    rw [statement, StatementPlan.write, braces_eq (statementsPass_eq _ _ body (apart_of_gapsOk h.1) h.2)]
  | loopWhile test body =>
    rw [StatementPlan.WF] at h
    rw [statement, StatementPlan.write, guardedExpr_eq _ _ h.1,
      braces_eq (statementsPass_eq _ _ body (apart_of_gapsOk h.2.1) h.2.2)]
  | ifElse test thenBody elseBody =>
    rw [StatementPlan.WF] at h
    obtain ⟨htest, hthen, helse⟩ := h
    rw [statement, StatementPlan.write, guardedExpr_eq _ _ htest,
      braces_eq (statementsPass_eq _ _ thenBody (apart_of_gapsOk hthen.1) hthen.2),
      braces_eq (statementsPass_eq _ _ elseBody (apart_of_gapsOk helse.1) helse.2)]
    rcases elseBody with _ | ⟨_ | _, elseBody⟩ <;> rfl
  | returnValues spread results =>
    rw [StatementPlan.WF] at h
    rw [statement, StatementPlan.write, values_eq _ (by decide) _ (apart_of_shape h.1) h.2]
  | define names spread inits =>
    rw [StatementPlan.WF] at h
    rw [statement, StatementPlan.write, values_eq _ (by decide) _ (apart_of_shape h.2.1) h.2.2]
  | _ => rfl

lemma statementsPass_eq (level : Nat) (rows : List (Option (List Nat))) :
    ∀ members : List EntryPlan, Apart (members.map EntryPlan.mark) → EntriesWF members →
      statementsPass level rows members = (blockStyle level).pass (blockEntriesOf level rows members) := by
  intro members hgaps h
  funext page columns
  match members with
  | [] => rfl
  | .comment gap text :: members =>
    rw [EntriesWF] at h
    rw [statementsPass, blockEntriesOf, pass_cons,
      statementsPass_eq level rows.tail members (List.forall_mem_cons.1 hgaps).2 h.2]
  | .statement gap s :: members =>
    rw [EntriesWF] at h
    obtain ⟨hgap, hgaps⟩ := List.forall_mem_cons.1 hgaps
    have hstored := eq_of_isLocal (s.write_isLocal level (rows.head?.getD none) h.1) (hgap rfl) level page
    dsimp only [EntryPlan.mark] at hstored
    rw [statementsPass, statement_eq _ _ _ s h.1, hstored, statementsPass_eq level rows.tail members hgaps h.2,
      blockEntriesOf, pass_cons, ListStyle.writeEntry_eq, Gap.write_eq]
    rfl
end

lemma block_eq (level : Nat) (page : Page) {body : List EntryPlan} (hgaps : Apart (body.map EntryPlan.mark))
    (h : EntriesWF body) : block level page body = writeBlockOf level page body :=
  braces_eq (statementsPass_eq level _ body hgaps h) page

end Statements

end Afresh

section Lists

/-- A layout succeeds on every page, and writes the same as a plain one, which depends on the current
line only. -/
def WritesByLine (once : Page → Except LayoutFault Page) (afresh : Page → Page) : Prop :=
  ∃ text : Text → Text, ∀ page,
    once page = .ok (page.write (text page.currentLine)) ∧ afresh page = page.write (text page.currentLine)

lemma writesByLine_of_isLocal {once : Page → Except LayoutFault Page} {afresh f : Page → Page} (hf : IsLocal f)
    (honce : ∀ page, once page = .ok (f page)) (hafresh : ∀ page, afresh page = f page) :
    WritesByLine once afresh := by
  obtain ⟨text, hf⟩ := hf
  refine ⟨text, fun page => ?_⟩
  rw [honce, hafresh, hf]
  exact ⟨rfl, rfl⟩

lemma entriesWF_anywhere {previous : Int} {nodes : List Node} (h : EntriesWF (entryPlans previous nodes))
    (previous' : Int) : EntriesWF (entryPlans previous' nodes) := by
  induction nodes generalizing previous previous' with
  | nil => trivial
  | cons node nodes ih =>
    cases node with
    | importNames start path names stop => exact ih h _
    | _ => exact ⟨h.1, ih h.2 _⟩

lemma apart_entryPlans (previous : Int) (nodes : List Node) :
    Afresh.Apart ((entryPlans previous nodes).map EntryPlan.mark) := by
  induction nodes generalizing previous with
  | nil => simp [Afresh.Apart, entryPlans]
  | cons node nodes ih =>
    cases node with
    | importNames start path names stop => exact ih previous
    | comment start source => exact List.forall_mem_cons.2 ⟨fun h => Bool.noConfusion h, ih _⟩
    | _ => exact List.forall_mem_cons.2 ⟨fun _ => gap_ne_sameLine rfl previous, ih _⟩

lemma writeBlock_byLine (level : Nat) (startLine : Int) {nodes : List Node} (h : areStatements nodes)
    (hwf : EntriesWF (entryPlans startLine nodes)) :
    WritesByLine (writeBlock level startLine · nodes) (Afresh.block level · (entryPlans startLine nodes)) := by
  apply writesByLine_of_isLocal (writeBraces_isLocal level _)
  · exact fun page => writeBlock_eq level startLine page h
  · exact fun page => Afresh.block_eq level page (apart_entryPlans startLine nodes) hwf

lemma valuesWF_anywhere {spread : Bool} {previous : Int} {nodes : List Node}
    (h : ValuesWF (valuePlans spread previous nodes)) (spread' : Bool) (previous' : Int) :
    ValuesWF (valuePlans spread' previous' nodes) := by
  induction nodes generalizing previous previous' with
  | nil => trivial
  | cons node nodes ih =>
    cases node with
    | comment start source => exact ⟨h.1, ih h.2 _⟩
    | assignerDereference start name stop => exact ⟨h.1, ih h.2 _⟩
    | expression value => exact ⟨h.1, ih h.2 _⟩
    | _ => exact ih h _

lemma apart_valuePlans (previous : Int) (nodes : List Node) :
    Afresh.Apart ((valuePlans true previous nodes).map ValuePlan.mark) := by
  induction nodes generalizing previous with
  | nil => simp [Afresh.Apart, valuePlans]
  | cons node nodes ih =>
    cases node with
    | comment start source => exact List.forall_mem_cons.2 ⟨fun h => Bool.noConfusion h, ih _⟩
    | assignerDereference start name stop =>
      exact List.forall_mem_cons.2 ⟨fun _ => gap_ne_sameLine rfl previous, ih _⟩
    | expression value => exact List.forall_mem_cons.2 ⟨fun _ => gap_ne_sameLine rfl previous, ih _⟩
    | _ => exact ih _

section Values

variable {nodes : List Node} (h : areValues nodes)
  (hwf : ∀ spread previous, ValuesWF (valuePlans spread previous nodes))

include h hwf

lemma writeValues_byLine (level : Nat) (startLine : Int) {guards : List Char} (hguards : ' ' ∉ guards) :
    WritesByLine (writeValues level startLine guards · nodes) fun page =>
      Afresh.values level guards page (spansLines startLine nodes)
        (valuePlans (spansLines startLine nodes) startLine nodes) := by
  apply writesByLine_of_isLocal (writeValuesOf_isLocal level guards _ (hwf _ startLine))
  · exact fun page => writeValues_eq level startLine guards page h
  · intro page
    refine Afresh.values_eq level hguards page (fun hspread => ?_) (hwf _ _)
    rw [hspread]
    exact apart_valuePlans startLine nodes

lemma writeCall_byLine (level : Nat) (name : Selector) (stop : Position) :
    WritesByLine (writeExpr level 0 false false · (.call name nodes stop))
      (Afresh.expr level 0 false false · (Node.call name nodes stop).exprPlan) := by
  have hlocal : IsLocal fun page => (Node.call name nodes stop).exprPlan.write level 0 false false page := by
    simp only [Node.exprPlan, ExprPlan.write]
    cases spansLines name.start.line nodes with
    | true =>
      simp only [if_true]
      exact (IsLocal.write _).comp (writeDelimited_isLocal level _)
    | false =>
      simp only [Bool.false_eq_true, if_false]
      have hargs := (writeInline_isSteady true _ (hwf false name.start.line)).isLocal
      exact (((IsLocal.write _).comp (.write _)).comp hargs).comp (.write _)
  apply writesByLine_of_isLocal hlocal
  · exact fun page => writeExpr_eq level 0 false false page _ (by rw [Node.isExpr]; exact h)
  · intro page
    rw [Node.exprPlan]
    apply Afresh.call_eq
    · intro hspread
      rw [hspread]
      exact Afresh.valuesPass_eq level true _ (apart_valuePlans _ nodes) (hwf _ _)
    · exact fun page => Afresh.inline_eq true page _ (hwf _ _)

end Values

/-- Lists that have been read are laid out alike with and without stored texts, and on all pages with the same
current line, whatever stands above it. -/
theorem lists_written_by_line {n : Node} (h : Parsed n) (level : Nat) :
    (∀ line nodes, (line, nodes) ∈ n.blocks → ∀ startLine,
      WritesByLine (writeBlock level startLine · nodes) (Afresh.block level · (entryPlans startLine nodes))) ∧
    ∀ line nodes, (line, nodes) ∈ n.valueLists →
      (∀ startLine guards, ' ' ∉ guards → WritesByLine (writeValues level startLine guards · nodes) fun page =>
        Afresh.values level guards page (spansLines startLine nodes)
          (valuePlans (spansLines startLine nodes) startLine nodes)) ∧
      ∀ name stop, WritesByLine (writeExpr level 0 false false · (.call name nodes stop))
        (Afresh.expr level 0 false false · (Node.call name nodes stop).exprPlan) := by
  refine ⟨fun line nodes hn startLine => ?_, fun line nodes hn => ?_⟩
  · obtain ⟨hstatements, hwf⟩ := h.planned.blocks hn
    exact writeBlock_byLine level startLine hstatements (entriesWF_anywhere hwf.2 startLine)
  · obtain ⟨hvalues, -, hwf⟩ := h.planned.valueLists hn
    have hwf := valuesWF_anywhere hwf
    exact ⟨fun startLine guards hguards => writeValues_byLine hvalues hwf level startLine hguards,
      fun name stop => writeCall_byLine hvalues hwf level name stop⟩

/-- A test that needs parentheses, with a call over several lines in it. -/
theorem lists_written_by_line_body :
    let source : Text :=
      ("f() \x7b\n  if (\x7b\x7d == g( // a\n    & &b, // c\n    h(1,\n      2), // d\n  )) \x7b\n" : Text) ++
        ("    x = 1 // e\n    yy = 2 // f\n  \x7d\n\x7d\n" : Text)
    ∃ tokens nodes, tokenize (.startOf "f") source = .ok tokens ∧ parse tokens = .ok nodes ∧
      (Node.walkAll nodes).flatMap (fun n => n.blocks.map fun block => block.2.length) = [1, 4, 0] ∧
      (Node.walkAll nodes).flatMap (fun n => n.valueLists.map fun values => values.2.length) = [5, 2, 1, 1] ∧
      ∀ n ∈ Node.walkAll nodes, ∀ line body, (line, body) ∈ n.blocks → ∀ startLine,
        WritesByLine (writeBlock 1 startLine · body) (Afresh.block 1 · (entryPlans startLine body)) := by
  intro source
  obtain ⟨tokens, nodes, ht, hp, hcheck⟩ := exists_parsed_with (.startOf "f") source (fun nodes =>
    decide ((Node.walkAll nodes).flatMap (fun n => n.blocks.map fun block => block.2.length) = [1, 4, 0]) &&
    decide ((Node.walkAll nodes).flatMap (fun n => n.valueLists.map fun values => values.2.length) = [5, 2, 1, 1]))
    (by decide +kernel)
  simp only [Bool.and_eq_true, decide_eq_true_eq] at hcheck
  exact ⟨tokens, nodes, ht, hp, hcheck.1, hcheck.2, fun n hn => (lists_written_by_line (.inFile ht hp hn) 1).1⟩

end Lists

end DpLang
