import DpLang.Proofs.FunctionBodies
import DpLang.Proofs.Plan
import Mathlib.Data.List.Forall2

/-!
# Layout of plans

The layout functions, for plans instead of trees. As a plan holds no node that is out of place, none
of them fails. `layout_eq` says that the layout of a tree is that of its plan.
-/

namespace DpLang

section Expressions

mutual
def ExprPlan.write (level outer : Nat) (tight right : Bool) (page : Page) : ExprPlan → Page
  | .prefixed op operand => operand.write level ultimatePrecedence tight false (op.write page)
  | .binary left op operand =>
    let style := BinaryStyle.choose op.precedence outer tight right
    let page := if style.parens then page.write ['('] else page
    let page := left.write level op.precedence style.tight false page
    let page := page.write (if style.tight then op.text else ' ' :: op.text ++ [' '])
    let page := operand.write level op.precedence style.tight true page
    if style.parens then page.write [')'] else page
  | .boolean value => page.write (if value then "true" else "false")
  | .call names spread args =>
    let page := page.write (Text.join ['.'] names)
    if spread then writeDelimited level (valueEntriesOf level true args) page
    else (writeInline true (page.write ['(']) args).write [')']
  | .index names subscript =>
    (subscript.write level 0 false false (page.write (Text.join ['.'] names ++ ['[']))).write [']']
  | .literal _ source => page.write source
  | .nil => page.write "nil"
  | .selector names => page.write (Text.join ['.'] names)
  | .zero => page.write "\x7b\x7d"

/-- Writes values on one line. -/
def writeInline (first : Bool) (page : Page) : List ValuePlan → Page
  | [] => page
  | .comment _ _ :: values => writeInline first page values
  | .dereference _ name :: values =>
    let page := if first then page else page.write ", "
    writeInline false (page.write (dereferenceText name)) values
  | .value _ value :: values =>
    let page := if first then page else page.write ", "
    writeInline false (value.write 0 0 false false page) values

def valueEntriesOf (level : Nat) (first : Bool) : List ValuePlan → List Entry
  | [] => []
  | .comment gap text :: values =>
    ⟨gap, if first then .alone text else .aligned text⟩ :: valueEntriesOf level false values
  | .dereference gap name :: values =>
    ⟨gap, .code (dereferenceText name ++ [','])⟩ :: valueEntriesOf level false values
  | .value gap value :: values =>
    ⟨gap, .code ((value.write (level + 1) 0 false false (.indented level)).value ++ [','])⟩ ::
      valueEntriesOf level false values
end

mutual
lemma writeExpr_eq (level outer : Nat) (tight right : Bool) (page : Page) :
    ∀ n : Node, n.isExpr → writeExpr level outer tight right page n =
      .ok (n.exprPlan.write level outer tight right page) := by
  intro n h
  cases n with
  | prefixed start op operand stop =>
    rw [Node.isExpr] at h
    cases op with
    | unary op =>
      cases op with
      | identity => rw [writeExpr, Node.exprPlan, writeExpr_eq _ _ _ _ _ operand h]
      | _ => rw [writeExpr, Node.exprPlan, ExprPlan.write, writeExpr_eq _ _ _ _ _ operand h] <;> simp
    | _ => rw [writeExpr, Node.exprPlan, ExprPlan.write, writeExpr_eq _ _ _ _ _ operand h] <;> simp
  | binary left op operand stop =>
    rw [Node.isExpr, Bool.and_eq_true] at h
    rw [writeExpr, Node.exprPlan, ExprPlan.write]
    dsimp only
    rw [writeExpr_eq _ _ _ _ _ left h.1, bind_ok, writeExpr_eq _ _ _ _ _ operand h.2]
    rfl
  | call name args stop =>
    rw [Node.isExpr] at h
    rw [writeExpr, Node.exprPlan, ExprPlan.write]
    dsimp only [Selector.text]
    cases hs : spansLines name.start.line args with
    | true =>
      rw [if_pos rfl, if_pos rfl, valueEntries_eq _ _ _ args h]
      rfl
    | false =>
      rw [if_neg Bool.false_ne_true, if_neg Bool.false_ne_true,
        writeOneLine_eq _ _ false name.start.line args h]
      rfl
  | index name subscript stop =>
    rw [Node.isExpr] at h
    rw [writeExpr, Node.exprPlan, ExprPlan.write, writeExpr_eq _ _ _ _ _ subscript h]
    rfl
  | boolean start value stop => rw [writeExpr, Node.exprPlan, ExprPlan.write]
  | literal start kind source stop => rw [writeExpr, Node.exprPlan, ExprPlan.write]
  | nil start stop => rw [writeExpr, Node.exprPlan, ExprPlan.write]
  | selector s => rw [writeExpr, Node.exprPlan, ExprPlan.write, Selector.text]
  | zero start stop => rw [writeExpr, Node.exprPlan, ExprPlan.write] <;> simp
  | _ => simp [Node.isExpr] at h

lemma writeOneLine_eq (first : Bool) (page : Page) (spread : Bool) (previous : Int) :
    ∀ nodes : List Node, areValues nodes → writeOneLine first page nodes =
      .ok (writeInline first page (valuePlans spread previous nodes))
  | [], _ => rfl
  | node :: nodes, h => by
    cases node with
    | comment start source =>
      rw [areValues] at h
      rw [writeOneLine, valuePlans, writeInline, writeOneLine_eq _ _ spread _ nodes h]
    | assignerDereference start name stop =>
      rw [areValues] at h
      rw [writeOneLine, valuePlans, writeInline, writeOneLine_eq _ _ spread _ nodes h]
    | expression value =>
      rw [areValues, Bool.and_eq_true] at h
      rw [writeOneLine, valuePlans, writeInline]
      rw [writeExpr_eq _ _ _ _ _ value h.1, bind_ok, writeOneLine_eq _ _ spread _ nodes h.2]
    | _ => simp [areValues] at h

lemma valueEntries_eq (level : Nat) (previous : Int) (first : Bool) :
    ∀ nodes : List Node, areValues nodes → valueEntries level previous first nodes =
      .ok (valueEntriesOf level first (valuePlans true previous nodes))
  | [], _ => rfl
  | node :: nodes, h => by
    cases node with
    | comment start source =>
      rw [areValues] at h
      rw [valueEntries, valuePlans, valueEntriesOf, valueEntries_eq _ _ _ nodes h]
      rfl
    | assignerDereference start name stop =>
      rw [areValues] at h
      rw [valueEntries, valuePlans, valueEntriesOf, valueEntries_eq _ _ _ nodes h]
      rfl
    | expression value =>
      rw [areValues, Bool.and_eq_true] at h
      rw [valueEntries, valuePlans, valueEntriesOf, writeExpr_eq _ _ _ _ _ value h.1, bind_ok,
        valueEntries_eq _ _ _ nodes h.2]
      rfl
    | _ => simp [areValues] at h
end

/-- Writes an expression, in parentheses if it would start with a brace. -/
def ExprPlan.writeGuarded (level : Nat) (page : Page) (value : ExprPlan) : Page :=
  let text := (value.write level 0 false false page.fork).value
  page.write (if text.head? == some '\x7b' then '(' :: text ++ [')'] else text)

lemma writeGuarded_eq (level : Nat) (page : Page) {n : Node} (h : n.isExpr) :
    writeGuarded level page n = .ok (n.exprPlan.writeGuarded level page) := by
  rw [writeGuarded, writeExpr_eq _ _ _ _ _ n h]
  rfl

lemma valuePlans_isEmpty (spread : Bool) (previous : Int) {nodes : List Node}
    (h : areValues nodes) : (valuePlans spread previous nodes).isEmpty = nodes.isEmpty := by
  cases nodes with
  | nil => rfl
  | cons node nodes => cases node <;> first | rfl | simp [areValues] at h

def writeValuesOf (level : Nat) (guards : List Char) (page : Page) (spread : Bool)
    (values : List ValuePlan) : Page :=
  if spread then writeDelimited level (valueEntriesOf level true values) page
  else
    let text := (writeInline true page.fork values).value
    page.write (if text.head?.any guards.contains then '(' :: text ++ [')'] else text)

lemma writeValues_eq (level : Nat) (startLine : Int) (guards : List Char) (page : Page)
    {nodes : List Node} (h : areValues nodes) :
    writeValues level startLine guards page nodes =
      .ok (writeValuesOf level guards page (spansLines startLine nodes)
        (valuePlans (spansLines startLine nodes) startLine nodes)) := by
  unfold writeValues writeValuesOf
  cases spansLines startLine nodes with
  | true =>
    rw [if_pos rfl, if_pos rfl, valueEntries_eq _ _ _ nodes h]
    rfl
  | false =>
    rw [if_neg Bool.false_ne_true, if_neg Bool.false_ne_true,
      writeOneLine_eq _ _ false startLine nodes h]
    rfl

end Expressions

section Columns

/-- What the columns of a member of a list depend on: the gap in front of it, its values, and whether
it is written on one line. -/
structure RowPlan where
  gap : Gap
  values : List Text
  onOneLine : Bool

/-- The cells of each row, none for one without columns. -/
def cellsOf (above widths : List Nat) : List RowPlan → List (Option (List Nat)) × List Nat
  | [] => ([], widths)
  | row :: rows =>
    if row.gap = .sameLine then
      let (cells, widths) := cellsOf above widths rows
      (none :: cells, widths)
    else
      match row.values with
      | [] =>
        let (cells, widths) := cellsOf [] widths rows
        (none :: cells, widths)
      | values =>
        let (own, widths) := Columns.place (if row.gap = .blankLine then [] else above) values widths
        let (cells, widths) := cellsOf (if row.onOneLine then own else []) widths rows
        (some own :: cells, widths)

/-- The column widths of each row, none for one without columns. -/
def widthsOf (rows : List RowPlan) : List (Option (List Nat)) :=
  let (cells, widths) := cellsOf [] [] rows
  cells.map fun row => row.map fun cells => cells.map fun cell => widths.getD cell 0

/-- Writes the values of a row, each but the last padded to its width. -/
def writeRow (page : Page) : List Text → List Nat → Page
  | [], _ => page
  | [value], _ => page.write value
  | value :: values, widths =>
    writeRow ((page.write value).pad (widths.headD 0 - value.length)) values widths.tail

lemma columnsWrite_eq (page : Page) (values : List Text) (widths : List Nat)
    (h : values.length ≤ widths.length + 1) :
    Columns.write page values widths = .ok (writeRow page values widths) := by
  induction values generalizing page widths with
  | nil => rfl
  | cons value values ih =>
    cases values with
    | nil => rfl
    | cons next values =>
      cases widths with
      | nil => simp at h
      | cons width widths =>
        rw [Columns.write, writeRow, ih _ widths (by simpa using h)]
        · rfl
        all_goals simp

/-- The rows of nodes that follow something that stops on `previous`. -/
def rowPlans (columns : Node → List Text) (previous : Int) : List Node → List RowPlan
  | [] => []
  | node :: nodes =>
    ⟨.before previous node, columns node, node.onOneLine⟩ :: rowPlans columns node.stop.line nodes

lemma before_eq_sameLine {previous : Int} {node : Node} :
    Gap.before previous node = .sameLine ↔ (some (node.start.line - previous) == some 0 &&
      node.isComment) = true := by
  rw [Gap.before_eq_sameLine, Bool.and_eq_true, beq_iff_eq, Option.some_inj]
  exact and_congr_left' (by omega)

lemma before_eq_blankLine {previous : Int} {node : Node} :
    Gap.before previous node = .blankLine ↔ 1 < node.start.line - previous := by
  unfold Gap.before
  dsimp only
  split
  · next h =>
    simp only [Bool.and_eq_true, decide_eq_true_eq] at h
    simp [h.1]
  · split
    · next h => exact iff_of_false nofun (by omega)
    · next h => exact iff_of_true rfl (by omega)

lemma cells_eq (columns : Node → List Text) (previous : Int) (above widths : List Nat)
    (nodes : List Node) :
    Columns.cells columns (some previous) above widths nodes =
      cellsOf above widths (rowPlans columns previous nodes) := by
  induction nodes generalizing previous above widths with
  | nil => rfl
  | cons node nodes ih =>
    rw [Columns.cells, rowPlans, cellsOf]
    dsimp only [Option.map_some, Option.any_some]
    by_cases hs : Gap.before previous node = .sameLine
    · rw [if_pos hs, if_pos (before_eq_sameLine.mp hs), ih]
    · rw [if_neg hs, if_neg (fun h => hs (before_eq_sameLine.mpr h))]
      cases hc : columns node with
      | nil => rw [ih]
      | cons value values =>
        dsimp only
        have habove : (if decide (1 < node.start.line - previous) then [] else above) =
            if Gap.before previous node = .blankLine then [] else above := by
          simp only [decide_eq_true_eq, before_eq_blankLine]
        rw [habove, ih]

/-- The columns of a list do not depend on what stands in front of it. -/
lemma widths_eq {columns : Node → List Text} (hc : ∀ n, n.isComment → columns n = [])
    (previous : Int) (nodes : List Node) :
    Columns.widths columns nodes = widthsOf (rowPlans columns previous nodes) := by
  have hcells : Columns.cells columns none [] [] nodes =
      cellsOf [] [] (rowPlans columns previous nodes) := by
    cases nodes with
    | nil => rfl
    | cons node nodes =>
      rw [← cells_eq, Columns.cells, Columns.cells]
      dsimp only [Option.map_none, Option.map_some]
      by_cases hs : (some (node.start.line - previous) == some 0 && node.isComment) = true
      · rw [if_pos hs, if_neg (by simp), hc node (Bool.and_eq_true_iff.mp hs).2]
      · rw [if_neg hs, if_neg (by simp)]
        cases hv : columns node with
        | nil => rfl
        | cons value values => simp only [Option.any_none, ite_self]
  rw [Columns.widths, hcells, widthsOf]

/-- A row with columns has a width for each of them. -/
def RowPlan.Fits (row : RowPlan) (cells : Option (List Nat)) : Prop :=
  row.gap ≠ .sameLine → row.values.length ≤ (cells.getD []).length

lemma place_length (above : List Nat) (values : List Text) (widths : List Nat) :
    (Columns.place above values widths).1.length = values.length := by
  induction values generalizing above widths with
  | nil => simp [Columns.place]
  | cons value values ih =>
    rcases above with _ | ⟨cell, _ | ⟨next, above⟩⟩
    · simp [Columns.place, ih]
    · simp [Columns.place, ih]
    · simp [Columns.place, ih]

lemma cellsOf_fits (above widths : List Nat) (rows : List RowPlan) :
    List.Forall₂ RowPlan.Fits rows (cellsOf above widths rows).1 := by
  induction rows generalizing above widths with
  | nil => exact .nil
  | cons row rows ih =>
    rw [cellsOf]
    split
    · next hs => exact .cons (fun h => absurd hs h) (ih _ _)
    · split
      · next hv => exact .cons (fun _ => by simp [hv]) (ih _ _)
      · next values hv =>
        exact .cons (fun _ => Nat.le_of_eq (place_length _ _ _).symm) (ih _ _)

lemma widthsOf_fits (rows : List RowPlan) : List.Forall₂ RowPlan.Fits rows (widthsOf rows) := by
  rw [widthsOf]
  refine List.forall₂_map_right_iff.mpr ((cellsOf_fits [] [] rows).imp fun row cells h hs => ?_)
  cases cells with
  | none => exact h hs
  | some cells => simpa using h hs

end Columns

section Statements

def TargetPlan.write (level : Nat) (page : Page) : TargetPlan → Page
  | .dereference name => page.write (dereferenceText name)
  | .call names spread args => (ExprPlan.call names spread args).write level 0 false false page
  | .index names subscript =>
    (subscript.write 0 0 true false (page.write (Text.join ['.'] names ++ ['[']))).write [']']
  | .selector names => page.write (Text.join ['.'] names)

def writeTargetsOf (level : Nat) (first : Bool) (page : Page) : List TargetPlan → Page
  | [] => page
  | target :: targets =>
    writeTargetsOf level false (target.write level (if first then page else page.write ", ")) targets

lemma writeTarget_eq (level : Nat) (page : Page) {n : Node} (h : n.isTarget) :
    writeTarget level page n = .ok (n.targetPlan.write level page) := by
  cases n with
  | assignerDereference start name stop => rfl
  | call name args stop =>
    have hcall : (Node.call name args stop).isExpr := by rw [Node.isExpr]; exact h
    rw [writeTarget, writeExpr_eq _ _ _ _ _ _ hcall, Node.exprPlan, Node.targetPlan,
      TargetPlan.write]
  | index name subscript stop =>
    rw [writeTarget, writeExpr_eq _ _ _ _ _ subscript h]
    rfl
  | selector s => rfl
  | _ => simp [Node.isTarget] at h

lemma writeTargets_eq (level : Nat) (first : Bool) (page : Page) {nodes : List Node}
    (h : nodes.all Node.isTarget) :
    writeTargets level first page nodes =
      .ok (writeTargetsOf level first page (nodes.map Node.targetPlan)) := by
  induction nodes generalizing first page with
  | nil => rfl
  | cons node nodes ih =>
    rw [List.all_cons, Bool.and_eq_true] at h
    rw [writeTargets, writeTarget_eq _ _ h.1, bind_ok, ih _ _ h.2]
    rfl

def StatementPlan.columns : StatementPlan → List Text
  | .declare names _ => [Text.join ", " names, ":"]
  | .define names _ _ => [Text.join ", " names, ":="]
  | _ => []

/-- Is the statement written on a line of its own? -/
def StatementPlan.onOneLine : StatementPlan → Bool
  | .define _ spread _ => !spread
  | _ => true

/-- What the columns of a member of a block depend on. -/
def EntryPlan.row : EntryPlan → RowPlan
  | .comment gap _ => ⟨gap, [], true⟩
  | .statement gap s => ⟨gap, s.columns, s.onOneLine⟩

mutual
def StatementPlan.write (level : Nat) (row : Option (List Nat)) (page : Page) :
    StatementPlan → Page
  | .assign targets spread values =>
    let page := writeTargetsOf (level + 1) true page targets
    writeValuesOf (level + 1) ['(', '\x7b'] (page.write " = ") spread values
  | .block body =>
    writeBraces (level + 1) (blockEntriesOf (level + 1) (widthsOf (body.map EntryPlan.row)) body) page
  | .jump .breakLoop => page.write "break"
  | .jump .continueLoop => page.write "continue"
  | .expression value => value.writeGuarded (level + 1) page
  | .loop body =>
    writeBraces (level + 1) (blockEntriesOf (level + 1) (widthsOf (body.map EntryPlan.row)) body)
      (page.write "for ")
  | .loopWhile test body =>
    let page := test.writeGuarded (level + 1) (page.write "for ")
    writeBraces (level + 1) (blockEntriesOf (level + 1) (widthsOf (body.map EntryPlan.row)) body)
      (page.write [' '])
  | .ifElse test thenBody elseBody =>
    let page := test.writeGuarded (level + 1) (page.write "if ")
    let page := writeBraces (level + 1)
      (blockEntriesOf (level + 1) (widthsOf (thenBody.map EntryPlan.row)) thenBody) (page.write [' '])
    let entries := blockEntriesOf (level + 1) (widthsOf (elseBody.map EntryPlan.row)) elseBody
    if entries.isEmpty then page else writeBraces (level + 1) entries (page.write " else ")
  | .returnValues spread values =>
    let page := page.write (if values.isEmpty then "return" else "return ")
    writeValuesOf (level + 1) ['\x7b'] page spread values
  | .declare names type =>
    let page := writeRow page (StatementPlan.columns (.declare names type)) (row.getD [])
    page.write (' ' :: ((type.map TypeExpr.text).getD "auto"))
  | .define names spread values =>
    let page := writeRow page (StatementPlan.columns (.define names spread values)) (row.getD [])
    writeValuesOf (level + 1) ['(', '\x7b'] (page.write [' ']) spread values

def blockEntriesOf (level : Nat) (rows : List (Option (List Nat))) : List EntryPlan → List Entry
  | [] => []
  | .comment gap text :: entries => ⟨gap, .aligned text⟩ :: blockEntriesOf level rows.tail entries
  | .statement gap s :: entries =>
    ⟨gap, .code (s.write level (rows.head?.getD none) (.indented level)).value⟩ ::
      blockEntriesOf level rows.tail entries
end

section Lists

variable {node : Node} (hi : node.isImport = false) (hc : node.isComment = false)
  (nodes : List Node) (previous : Int)

include hi hc

lemma blockEntries_cons (level : Nat) (rows : List (Option (List Nat))) :
    blockEntries level previous rows (node :: nodes) =
      (writeStatement level (rows.head?.getD none) (.indented level) node >>= fun page =>
        blockEntries level node.stop.line rows.tail nodes >>= fun entries =>
          pure (⟨.before previous node, .code page.value⟩ :: entries)) := by
  cases node <;> first | rfl | exact Bool.noConfusion hi | exact Bool.noConfusion hc

lemma entryPlans_cons :
    entryPlans previous (node :: nodes) =
      .statement (.before previous node) node.statementPlan :: entryPlans node.stop.line nodes := by
  cases node <;> first | rfl | exact Bool.noConfusion hi | exact Bool.noConfusion hc

lemma areStatements_cons :
    areStatements (node :: nodes) = (node.isStatement && areStatements nodes) := by
  cases node <;> first | rfl | exact Bool.noConfusion hi | exact Bool.noConfusion hc

end Lists

lemma columns_eq (node : Node) :
    Columns.ofStatement node = node.statementPlan.columns ∧
      node.onOneLine = node.statementPlan.onOneLine := by
  cases node with
  | forLoop start test bodyStart body stop => cases test <;> exact ⟨rfl, rfl⟩
  | _ => exact ⟨rfl, rfl⟩

lemma rowPlans_eq (previous : Int) {nodes : List Node} (h : areStatements nodes) :
    rowPlans Columns.ofStatement previous (withoutImports nodes) =
      (entryPlans previous nodes).map EntryPlan.row := by
  induction nodes generalizing previous with
  | nil => rfl
  | cons node nodes ih =>
    cases hi : node.isImport with
    | true =>
      cases node with
      | importNames start path names stop =>
        rw [areStatements, Bool.and_eq_true] at h
        exact ih previous h.2
      | _ => cases hi
    | false =>
      have hw : withoutImports (node :: nodes) = node :: withoutImports nodes :=
        List.filter_cons_of_pos (by rw [hi]; rfl)
      cases hc : node.isComment with
      | true =>
        cases node with
        | comment start source =>
          rw [areStatements] at h
          rw [hw, rowPlans, ih _ h]
          rfl
        | _ => cases hc
      | false =>
        rw [areStatements_cons hi hc, Bool.and_eq_true] at h
        obtain ⟨hcolumns, hone⟩ := columns_eq node
        rw [hw, rowPlans, ih _ h.2, entryPlans_cons hi hc, List.map_cons, hcolumns, hone]
        rfl

lemma statementWidths_eq (previous : Int) {nodes : List Node} (h : areStatements nodes) :
    Columns.widths Columns.ofStatement (withoutImports nodes) =
      widthsOf ((entryPlans previous nodes).map EntryPlan.row) := by
  rw [widths_eq _ previous, rowPlans_eq _ h]
  intro n hn
  cases n <;> first | rfl | cases hn

lemma gap_ne_sameLine {node : Node} (hc : node.isComment = false) (previous : Int) :
    Gap.before previous node ≠ .sameLine := by
  intro h
  have := before_eq_sameLine.mp h
  rw [hc, Bool.and_false] at this
  cases this

mutual
lemma writeStatement_eq (level : Nat) (row : Option (List Nat)) (page : Page) :
    ∀ n : Node, n.isStatement → n.statementPlan.columns.length ≤ (row.getD []).length →
      writeStatement level row page n = .ok (n.statementPlan.write level row page) := by
  intro n h hrow
  cases n with
  | assign start targets values stop =>
    rw [Node.isStatement, Bool.and_eq_true] at h
    rw [writeStatement, writeTargets_eq _ _ _ h.1, bind_ok, writeValues_eq _ _ _ _ h.2,
      Node.statementPlan, StatementPlan.write]
  | block start body stop =>
    rw [Node.isStatement] at h
    rw [writeStatement]
    rw [statementWidths_eq start.line h, blockEntries_eq _ _ body h _ (widthsOf_fits _),
      Node.statementPlan, StatementPlan.write]
    rfl
  | jump start kind stop => cases kind <;> rfl
  | expression value =>
    rw [Node.isStatement] at h
    rw [writeStatement, writeGuarded_eq _ _ h, Node.statementPlan, StatementPlan.write]
  | forLoop start test bodyStart body stop =>
    cases test with
    | none =>
      rw [Node.isStatement] at h
      rw [writeStatement]
      rw [statementWidths_eq bodyStart.line h, blockEntries_eq _ _ body h _ (widthsOf_fits _),
        Node.statementPlan, StatementPlan.write]
      rfl
    | some test =>
      rw [Node.isStatement, Bool.and_eq_true] at h
      rw [writeStatement, writeGuarded_eq _ _ h.1, bind_ok]
      dsimp only
      rw [statementWidths_eq bodyStart.line h.2, blockEntries_eq _ _ body h.2 _ (widthsOf_fits _),
        Node.statementPlan, StatementPlan.write]
      rfl
  | ifElse start test thenStart thenBody thenStop elseBody stop =>
    rw [Node.isStatement, Bool.and_eq_true, Bool.and_eq_true] at h
    rw [writeStatement, writeGuarded_eq _ _ h.1.1, bind_ok]
    dsimp only
    rw [statementWidths_eq thenStart.line h.1.2,
      blockEntries_eq _ _ thenBody h.1.2 _ (widthsOf_fits _), bind_ok,
      statementWidths_eq thenStop.line h.2, blockEntries_eq _ _ elseBody h.2 _ (widthsOf_fits _),
      Node.statementPlan, StatementPlan.write]
    rfl
  | returnValues start values stop =>
    rw [Node.isStatement] at h
    rw [writeStatement, writeValues_eq _ _ _ _ h, Node.statementPlan, StatementPlan.write,
      valuePlans_isEmpty _ _ h]
  | variableDecl start names type stop =>
    rw [writeStatement, columnsWrite_eq _ _ _ (by exact Nat.le_succ_of_le hrow), Node.statementPlan,
      StatementPlan.write]
    cases type <;> rfl
  | variableDef start names values stop =>
    rw [Node.isStatement] at h
    rw [writeStatement, columnsWrite_eq _ _ _ (by exact Nat.le_succ_of_le hrow), bind_ok,
      writeValues_eq _ _ _ _ h, Node.statementPlan, StatementPlan.write]
    rfl
  | _ => simp [Node.isStatement] at h

lemma blockEntries_eq (level : Nat) (previous : Int) :
    ∀ nodes : List Node, areStatements nodes → ∀ rows : List (Option (List Nat)),
      List.Forall₂ RowPlan.Fits ((entryPlans previous nodes).map EntryPlan.row) rows →
      blockEntries level previous rows nodes =
        .ok (blockEntriesOf level rows (entryPlans previous nodes)) := by
  intro nodes h rows hrows
  cases nodes with
  | nil => rfl
  | cons node nodes =>
    cases hi : node.isImport with
    | true =>
      cases node with
      | importNames start path names stop =>
        rw [areStatements, Bool.and_eq_true] at h
        rw [blockEntries, entryPlans]
        exact blockEntries_eq level previous nodes h.2 rows hrows
      | _ => cases hi
    | false =>
      cases hc : node.isComment with
      | true =>
        cases node with
        | comment start source =>
          rw [areStatements] at h
          rw [entryPlans, List.map_cons] at hrows
          cases hrows with
          | @cons _ row _ rows hrow hrows =>
            rw [blockEntries, entryPlans, blockEntriesOf, List.tail_cons,
              blockEntries_eq level _ nodes h rows hrows]
            rfl
        | _ => cases hc
      | false =>
        rw [areStatements_cons hi hc, Bool.and_eq_true] at h
        rw [entryPlans_cons hi hc, List.map_cons] at hrows
        cases hrows with
        | @cons _ row _ rows hrow hrows =>
          rw [blockEntries_cons hi hc, entryPlans_cons hi hc, blockEntriesOf, List.tail_cons,
            List.head?_cons, Option.getD_some,
            writeStatement_eq level row _ node h.1 (hrow (gap_ne_sameLine hc previous)), bind_ok,
            blockEntries_eq level _ nodes h.2 rows hrows]
          rfl
end

def writeBlockOf (level : Nat) (page : Page) (body : List EntryPlan) : Page :=
  writeBraces level (blockEntriesOf level (widthsOf (body.map EntryPlan.row)) body) page

lemma writeBlock_eq (level : Nat) (startLine : Int) (page : Page) {nodes : List Node}
    (h : areStatements nodes) :
    writeBlock level startLine page nodes =
      .ok (writeBlockOf level page (entryPlans startLine nodes)) := by
  rw [writeBlock]
  rw [statementWidths_eq startLine h, blockEntries_eq _ _ nodes h _ (widthsOf_fits _)]
  rfl

end Statements

section Members

variable {α : Type}

/-- What the columns of a member depend on. -/
def Member.row (columns : α → List Text) : Member α → RowPlan
  | .comment gap _ => ⟨gap, [], true⟩
  | .item gap a => ⟨gap, columns a, true⟩

/-- The entries of a list whose members are written by `code`. -/
def memberEntries (code : List Nat → α → Text) (rows : List (Option (List Nat))) :
    List (Member α) → List Entry
  | [] => []
  | .comment gap text :: members => ⟨gap, .aligned text⟩ :: memberEntries code rows.tail members
  | .item gap item :: members =>
    ⟨gap, .code (code ((rows.head?.getD none).getD []) item)⟩ :: memberEntries code rows.tail members

def memberItems : List (Member α) → List α
  | [] => []
  | .comment _ _ :: members => memberItems members
  | .item _ item :: members => item :: memberItems members

lemma memberPlans_cons (item : Node → α) (spread : Bool) (previous : Int) {node : Node}
    (hc : node.isComment = false) (nodes : List Node) :
    memberPlans item spread previous (node :: nodes) =
      .item (.within spread previous node) (item node) ::
        memberPlans item spread node.stop.line nodes := by
  cases node <;> first | rfl | exact Bool.noConfusion hc

lemma memberItems_memberPlans (item : Node → α) (spread : Bool) (previous : Int)
    {nodes : List Node} (h : nodes.any Node.isComment = false) :
    memberItems (memberPlans item spread previous nodes) = nodes.map item := by
  induction nodes generalizing previous with
  | nil => rfl
  | cons node nodes ih =>
    rw [List.any_cons, Bool.or_eq_false_iff] at h
    rw [memberPlans_cons _ _ _ h.1, memberItems, ih _ h.2, List.map_cons]

lemma memberRows_eq {item : Node → α} {ofNode : Node → List Text} {columns : α → List Text}
    {nodes : List Node} (previous : Int) (hone : ∀ n ∈ nodes, n.onOneLine = true)
    (hcomment : ∀ n : Node, n.isComment → ofNode n = [])
    (h : ∀ n ∈ nodes, n.isComment = false → ofNode n = columns (item n)) :
    rowPlans ofNode previous nodes =
      (memberPlans item true previous nodes).map (Member.row columns) := by
  induction nodes generalizing previous with
  | nil => rfl
  | cons node nodes ih =>
    rw [List.forall_mem_cons] at hone h
    rw [rowPlans, ih _ hone.2 h.2, hone.1]
    cases hc : node.isComment with
    | true =>
      rw [hcomment node hc]
      cases node <;> first | rfl | exact Bool.noConfusion hc
    | false =>
      rw [memberPlans_cons _ _ _ hc, List.map_cons, h.1 hc]
      rfl

end Members

section Definitions

def writeConstantOf (isPublic : Bool) (name : Text) (value : ExprPlan) (tail : Option Text)
    (page : Page) : Page :=
  let page := page.write (publicText isPublic ++ name ++ (" = " : Text))
  let page := value.write 1 0 false false page
  page.write ((tail.map (' ' :: ·)).getD [] ++ ['\n'])

lemma writeConstant_eq (isPublic : Bool) (name : Text) {value : Node} (h : value.isExpr)
    {tail : List Node} (ht : tail.all Node.isComment) (page : Page) :
    writeConstant isPublic name value tail page =
      .ok (writeConstantOf isPublic name value.exprPlan (tail.head?.map Node.commentText) page) := by
  unfold writeConstant
  dsimp only
  rw [writeExpr_eq _ _ _ _ _ value h, bind_ok]
  cases tail with
  | nil => rfl
  | cons node nodes =>
    rw [List.all_cons, Bool.and_eq_true] at ht
    cases node with
    | comment start source => rfl
    | _ => exact Bool.noConfusion ht.1

def ParameterPlan.columns (p : ParameterPlan) : List Text := [p.name, p.type.text]

def ParameterPlan.code (widths : List Nat) (p : ParameterPlan) : Text :=
  (writeRow (.indented 1) p.columns widths).value ++ [',']

def writeParametersOf (spread : Bool) (params : List (Member ParameterPlan)) (page : Page) : Page :=
  if spread then
    let rows := widthsOf (params.map (Member.row ParameterPlan.columns))
    (memberStyle.write (memberEntries ParameterPlan.code rows params) (page.write ['('])).write "\n) "
  else
    let texts := parametersText ((memberItems params).map fun p => (p.name, p.type))
    page.write ('(' :: Text.join ", " texts ++ (") " : Text))

lemma parameterEntries_eq (previous : Int) {nodes : List Node} (h : nodes.all Node.isParameter)
    {rows : List (Option (List Nat))}
    (hrows : List.Forall₂ RowPlan.Fits
      ((memberPlans Node.parameterPlan true previous nodes).map (Member.row ParameterPlan.columns))
      rows) :
    parameterEntries previous rows nodes =
      .ok (memberEntries ParameterPlan.code rows
        (memberPlans Node.parameterPlan true previous nodes)) := by
  induction nodes generalizing previous rows with
  | nil => rfl
  | cons node nodes ih =>
    rw [List.all_cons, Bool.and_eq_true] at h
    cases node with
    | comment start source =>
      cases hrows with
      | @cons _ row _ rows hrow hrows =>
        rw [parameterEntries, List.tail_cons, ih _ h.2 hrows]
        rfl
    | parameter start name type stop =>
      cases type with
      | none => exact Bool.noConfusion h.1
      | some type =>
        cases hrows with
        | @cons _ row _ rows hrow hrows =>
          have hle : [name, type.type.text].length ≤ (row.getD []).length + 1 :=
            Nat.le_succ_of_le (hrow (gap_ne_sameLine rfl previous))
          have hwrite := columnsWrite_eq (.indented 1) [name, type.type.text] (row.getD []) hle
          rw [parameterEntries, List.tail_cons, ih _ h.2 hrows, parameterOf, bind_ok,
            Columns.ofParameter, List.head?_cons, Option.getD_some, hwrite]
          · rfl
          · simp
    | _ => exact Bool.noConfusion h.1

lemma mapM_parameterOf {nodes : List Node} (h : nodes.all Node.isParameter)
    (hc : nodes.any Node.isComment = false) :
    nodes.mapM parameterOf =
      .ok (nodes.map fun n => (n.parameterPlan.name, n.parameterPlan.type)) := by
  induction nodes with
  | nil => rfl
  | cons node nodes ih =>
    rw [List.all_cons, Bool.and_eq_true] at h
    rw [List.any_cons, Bool.or_eq_false_iff] at hc
    cases node with
    | comment start source => exact Bool.noConfusion hc.1
    | parameter start name type stop =>
      cases type with
      | none => exact Bool.noConfusion h.1
      | some type =>
        rw [List.mapM_cons, parameterOf, bind_ok, ih h.2 hc.2]
        rfl
    | _ => exact Bool.noConfusion h.1

lemma parameterRows_eq (previous : Int) {nodes : List Node} (h : nodes.all Node.isParameter) :
    Columns.widths Columns.ofParameter nodes =
      widthsOf ((memberPlans Node.parameterPlan true previous nodes).map
        (Member.row ParameterPlan.columns)) := by
  have hcomment (n : Node) (hn : n.isComment) : Columns.ofParameter n = [] := by
    cases n <;> first | rfl | exact Bool.noConfusion hn
  have hall (n : Node) (hn : n ∈ nodes) : n.isParameter = true := List.all_eq_true.mp h n hn
  rw [widths_eq hcomment previous, memberRows_eq previous _ hcomment]
  · intro n hn hc
    have hp := hall n hn
    cases n with
    | comment start source => exact Bool.noConfusion hc
    | parameter start name type stop => cases type <;> first | rfl | exact Bool.noConfusion hp
    | _ => exact Bool.noConfusion hp
  · intro n hn
    have hp := hall n hn
    cases n <;> first | rfl | exact Bool.noConfusion hp

lemma writeParameters_eq (startLine : Int) {params : List Node} (h : params.all Node.isParameter)
    (page : Page) :
    writeParameters startLine params page =
      .ok (writeParametersOf (spreadParameters startLine params)
        (memberPlans Node.parameterPlan (spreadParameters startLine params) startLine params)
        page) := by
  cases params with
  | nil => rfl
  | cons first rest =>
    have hline : (first.start.line = startLine && !(first :: rest).any Node.isComment) =
        !spreadParameters startLine (first :: rest) := by
      simp only [spreadParameters, Bool.not_or, decide_not, Bool.not_not]
    unfold writeParameters writeParametersOf
    dsimp only
    rw [hline]
    cases hs : spreadParameters startLine (first :: rest) with
    | true =>
      rw [Bool.not_true, if_neg Bool.false_ne_true, parameterRows_eq startLine h,
        parameterEntries_eq startLine h (widthsOf_fits _)]
      rfl
    | false =>
      have hc := (Bool.or_eq_false_iff.mp hs).2
      rw [Bool.not_false, if_pos rfl, mapM_parameterOf h hc, bind_ok,
        memberItems_memberPlans _ _ _ hc, List.map_map]
      rfl

def resultCode (_ : List Nat) (type : TypeExpr) : Text := type.text ++ [',']

def writeResultsOf (spread : Bool) (results : List (Member TypeExpr)) (page : Page) : Page :=
  if spread then
    (memberStyle.write (memberEntries resultCode [] results) (page.write ['('])).write "\n) "
  else
    match memberItems results with
    | [] => page.write "() "
    | [type] => page.write (type.text ++ [' '])
    | types => page.write ('(' :: Text.join ", " (types.map TypeExpr.text) ++ (") " : Text))

lemma resultEntries_eq (previous : Int) {nodes : List Node} (h : nodes.all Node.isResult) :
    resultEntries previous nodes =
      .ok (memberEntries resultCode [] (memberPlans Node.resultPlan true previous nodes)) := by
  induction nodes generalizing previous with
  | nil => rfl
  | cons node nodes ih =>
    rw [List.all_cons, Bool.and_eq_true] at h
    cases node with
    | comment start source =>
      rw [resultEntries, ih _ h.2]
      rfl
    | typeSpec spec =>
      rw [resultEntries, ih _ h.2]
      · rfl
      · simp
    | _ => exact Bool.noConfusion h.1

lemma mapM_resultText {nodes : List Node} (h : nodes.all Node.isResult)
    (hc : nodes.any Node.isComment = false) :
    nodes.mapM resultText = .ok ((nodes.map Node.resultPlan).map TypeExpr.text) := by
  induction nodes with
  | nil => rfl
  | cons node nodes ih =>
    rw [List.all_cons, Bool.and_eq_true] at h
    rw [List.any_cons, Bool.or_eq_false_iff] at hc
    cases node with
    | comment start source => exact Bool.noConfusion hc.1
    | typeSpec spec =>
      rw [List.mapM_cons, resultText, bind_ok, ih h.2 hc.2]
      rfl
    | _ => exact Bool.noConfusion h.1

lemma writeResults_eq (startLine : Int) {results : List Node} (h : results.all Node.isResult)
    (page : Page) :
    writeResults startLine results page =
      .ok (writeResultsOf (spreadResults startLine results)
        (memberPlans Node.resultPlan (spreadResults startLine results) startLine results)
        page) := by
  unfold writeResults
  cases hc : results.any Node.isComment with
  | true =>
    have hs : spreadResults startLine results = true := by
      rcases results with _ | ⟨first, _ | ⟨second, rest⟩⟩
      · simp at hc
      · rw [List.any_cons, List.any_nil, Bool.or_false] at hc
        exact hc
      · rw [spreadResults, hc, Bool.or_true]
        simp
    rw [hs, Bool.not_true, if_neg Bool.false_ne_true, resultEntries_eq startLine h]
    rfl
  | false =>
    have hitems := memberItems_memberPlans Node.resultPlan false startLine hc
    rw [Bool.not_false, if_pos rfl]
    rcases results with _ | ⟨first, _ | ⟨second, rest⟩⟩
    · rfl
    · have hs : spreadResults startLine [first] = false := by
        rw [List.any_cons, List.any_nil, Bool.or_false] at hc
        exact hc
      rw [List.all_cons, Bool.and_eq_true] at h
      rw [hs, writeResultsOf, if_neg Bool.false_ne_true, hitems]
      cases first with
      | typeSpec spec => rfl
      | comment start source => exact Bool.noConfusion hs
      | _ => exact Bool.noConfusion h.1
    · have hs : spreadResults startLine (first :: second :: rest) =
          decide (first.start.line ≠ startLine) := by
        rw [spreadResults, hc, Bool.or_false]
        simp
      dsimp only
      by_cases hl : first.start.line = startLine
      · rw [if_pos hl, mapM_resultText h hc, bind_ok, hs, decide_eq_false (by simpa using hl),
          writeResultsOf, if_neg Bool.false_ne_true, hitems]
        rfl
      · rw [if_neg hl, resultEntries_eq startLine h, hs, decide_eq_true hl]
        rfl

def receiverTextOf : Option (Text × TypeExpr) → Text
  | none => []
  | some (name, type) =>
    '(' :: (if name.isEmpty then [] else name ++ [' ']) ++ type.text ++ (") " : Text)

def FunctionPlan.write (f : FunctionPlan) (page : Page) : Page :=
  let page := page.write (publicText f.isPublic ++ receiverTextOf f.receiver ++ f.name)
  let page := writeParametersOf f.spreadParams f.params page
  let page := writeResultsOf f.spreadResults f.results page
  (writeBlockOf 1 page f.body).write ['\n']

lemma areStatements_sublist {some all : List Node} (hs : List.Sublist some all)
    (h : areStatements all) : areStatements some := by
  induction hs with
  | slnil => exact h
  | @cons some all node hs ih =>
    refine ih ?_
    cases node <;> first | exact h | exact (Bool.and_eq_true_iff.mp h).2
  | @cons_cons some all node hs ih =>
    have hrest : areStatements all := by
      cases node <;> first | exact h | exact (Bool.and_eq_true_iff.mp h).2
    cases node <;>
      first
      | exact ih hrest
      | exact Bool.and_eq_true_iff.mpr ⟨(Bool.and_eq_true_iff.mp h).1, ih hrest⟩

lemma writeFunction_eq (head : FunctionHead) {params results body : List Node}
    (hp : params.all Node.isParameter) (hr : results.all Node.isResult) (hb : areStatements body)
    (page : Page) :
    writeFunction head params results body page =
      .ok ((functionPlan head params results body).write page) := by
  have hreceiver : receiverText head.receiverName head.receiverType =
      receiverTextOf (functionPlan head params results body).receiver := by
    unfold functionPlan
    cases head.receiverType <;> rfl
  have hbody := areStatements_sublist (functionBody_sublist results body) hb
  unfold writeFunction
  dsimp only
  rw [hreceiver, writeParameters_eq _ hp, bind_ok, writeResults_eq _ hr, bind_ok,
    writeBlock_eq _ _ _ hbody]
  rfl

def FieldPlan.columns (f : FieldPlan) : List Text :=
  [f.name, f.type.text] ++ if f.access = .hidden then [] else [f.access.text]

def FieldPlan.code (widths : List Nat) (f : FieldPlan) : Text :=
  (writeRow (.indented 1) f.columns widths).value

def writeTypeOf (isPublic : Bool) (name : Text) (fields : List (Member FieldPlan)) (page : Page) :
    Page :=
  let page := page.write (publicText isPublic ++ name ++ (" \x7b" : Text))
  if fields.isEmpty then page.write "\x7d\n"
  else
    let rows := widthsOf (fields.map (Member.row FieldPlan.columns))
    (memberStyle.write (memberEntries FieldPlan.code rows fields) page).write "\n\x7d\n"

lemma field_cases {fields : List Node} (h : fields.all Node.isField) {node : Node}
    (hn : node ∈ withoutImports fields) :
    (∃ start source, node = .comment start source) ∨
      ∃ start name type access stop, node = .field start name type access stop := by
  have hmem := List.mem_filter.mp hn
  have hf := List.all_eq_true.mp h node hmem.1
  have hi := hmem.2
  cases node with
  | comment start source => exact .inl ⟨_, _, rfl⟩
  | field start name type access stop => exact .inr ⟨_, _, _, _, _, rfl⟩
  | _ => first | exact Bool.noConfusion hf | exact Bool.noConfusion hi

lemma fieldEntries_eq (previous : Int) {nodes : List Node}
    (h : ∀ n ∈ nodes, (∃ start source, n = .comment start source) ∨
      ∃ start name type access stop, n = .field start name type access stop)
    {rows : List (Option (List Nat))}
    (hrows : List.Forall₂ RowPlan.Fits
      ((memberPlans Node.fieldPlan true previous nodes).map (Member.row FieldPlan.columns)) rows) :
    fieldEntries previous rows nodes =
      .ok (memberEntries FieldPlan.code rows (memberPlans Node.fieldPlan true previous nodes)) := by
  induction nodes generalizing previous rows with
  | nil => rfl
  | cons node nodes ih =>
    rw [List.forall_mem_cons] at h
    obtain ⟨start, source, rfl⟩ | ⟨start, name, type, access, stop, rfl⟩ := h.1
    · cases hrows with
      | @cons _ row _ rows hrow hrows =>
        rw [fieldEntries, List.tail_cons, ih _ h.2 hrows]
        rfl
    · cases hrows with
      | @cons _ row _ rows hrow hrows =>
        have hle := Nat.le_succ_of_le (hrow (gap_ne_sameLine rfl previous))
        have hwrite := columnsWrite_eq (.indented 1) (FieldPlan.columns ⟨name, type.type, access⟩)
          (row.getD []) hle
        rw [fieldEntries, List.tail_cons, ih _ h.2 hrows]
        change ((Columns.write _ (FieldPlan.columns ⟨name, type.type, access⟩) _ >>= _) >>= _) = _
        rw [List.head?_cons, Option.getD_some, hwrite]
        rfl

lemma memberPlans_isEmpty {α : Type} (item : Node → α) (spread : Bool) (previous : Int)
    (nodes : List Node) : (memberPlans item spread previous nodes).isEmpty = nodes.isEmpty := by
  cases nodes with
  | nil => rfl
  | cons node nodes => cases node <;> rfl

lemma fieldRows_eq (startLine : Int) {fields : List Node} (h : fields.all Node.isField) :
    Columns.widths Columns.ofField (withoutImports fields) =
      widthsOf ((memberPlans Node.fieldPlan true startLine (withoutImports fields)).map
        (Member.row FieldPlan.columns)) := by
  have hcases (n : Node) (hn : n ∈ withoutImports fields) := field_cases h hn
  have hcomment (n : Node) (hn : n.isComment) : Columns.ofField n = [] := by
    cases n <;> first | rfl | exact Bool.noConfusion hn
  rw [widths_eq hcomment startLine, memberRows_eq startLine _ hcomment]
  · intro n hn hc
    obtain ⟨_, _, rfl⟩ | ⟨_, _, _, _, _, rfl⟩ := hcases n hn
    · exact Bool.noConfusion hc
    · rfl
  · intro n hn
    obtain ⟨_, _, rfl⟩ | ⟨_, _, _, _, _, rfl⟩ := hcases n hn <;> rfl

lemma writeType_eq (startLine : Int) (isPublic : Bool) (name : Text) {fields : List Node}
    (h : fields.all Node.isField) (page : Page) :
    writeType startLine isPublic name fields page =
      .ok (writeTypeOf isPublic name
        (memberPlans Node.fieldPlan true startLine (withoutImports fields)) page) := by
  unfold writeType writeTypeOf
  dsimp only
  rw [memberPlans_isEmpty]
  cases (withoutImports fields).isEmpty with
  | true => rfl
  | false =>
    rw [if_neg Bool.false_ne_true, if_neg Bool.false_ne_true, fieldRows_eq startLine h,
      fieldEntries_eq startLine (fun n hn => field_cases h hn) (widthsOf_fits _)]
    rfl

end Definitions

end DpLang
