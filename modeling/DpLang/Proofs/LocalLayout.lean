import DpLang.Proofs.AlignedLists

/-!
# Layout and the current line

What is written depends on the page only through its current line. Comments are aligned by the numbers of
their lines, but only neighbours count, so that a list can be moved up and down with its columns. An
expression depends on even less: on whether an ampersand stands in front of it.
-/

namespace DpLang

section Pages

namespace Page

lemma currentLine_behind (line : Text) (number : Int) : (behind line number).currentLine = line := by
  simp [behind, currentLine]

lemma value_behind (line t : Text) (number : Int) : ((behind line number).write t).value = t := by
  rw [value_write]
  rfl

lemma currentLine_fork (p : Page) : p.fork.currentLine = p.currentLine := currentLine_behind _ _

lemma currentLine_write_congr {p q : Page} (h : p.currentLine = q.currentLine) (t : Text) :
    (p.write t).currentLine = (q.write t).currentLine := by
  by_cases ht : '\n' ∈ t
  · exact currentLine_write_of_mem p q ht
  · rw [currentLine_write_of_notMem p ht, currentLine_write_of_notMem q ht, h]

lemma lastChar?_write (p : Page) {t : Text} (h : t ≠ []) : (p.write t).lastChar? = t.getLast? := by
  obtain ⟨front, last, rfl⟩ := List.eq_nil_or_concat t |>.resolve_left h
  simp [write, lastChar?]

lemma lastChar?_eq_iff (p : Page) {c : Char} (hc : c ≠ '\n') :
    p.lastChar? = some c ↔ p.currentLine.getLast? = some c := by
  obtain ⟨lead, line, written⟩ := p
  unfold lastChar? currentLine
  cases written with
  | nil => simp
  | cons d written =>
    dsimp only
    by_cases hd : d = '\n'
    · simp [hd, Ne.symm hc]
    · rw [List.takeWhile_cons_of_pos (by simpa using hd), List.reverse_cons]
      split
      · rw [List.getLast?_concat]
      · rw [← List.append_assoc, List.getLast?_concat]

end Page

end Pages

section Lists

/-- The columns for lines that are `shift` further down. -/
def CommentColumns.moved (shift : Int) (columns : CommentColumns) : CommentColumns :=
  ⟨columns.lines.map fun entry => (entry.1 + shift, entry.2), columns.cells⟩

variable {style : ListStyle} {p q : Page} {shift : Int} {columns : CommentColumns} {entry : Entry}
  {entries : List Entry}

lemma cell?_moved (columns : CommentColumns) (line shift : Int) :
    (columns.moved shift).cell? (line + shift) = columns.cell? line := by
  obtain ⟨lines, cells⟩ := columns
  unfold CommentColumns.moved CommentColumns.cell?
  dsimp only
  induction lines with
  | nil => rfl
  | cons entry lines ih =>
    rw [List.map_cons, List.lookup_cons, List.lookup_cons, ih]
    by_cases h : line = entry.1
    · simp [h]
    · rw [beq_false_of_ne h, beq_false_of_ne (by omega)]

lemma fresh_moved (columns : CommentColumns) (line shift : Int) (column : Nat) :
    (columns.moved shift).fresh (line + shift) column = (columns.fresh line column).moved shift := rfl

lemma join_moved (columns : CommentColumns) (line shift : Int) (cell column : Nat) :
    (columns.moved shift).join (line + shift) cell column = (columns.join line cell column).moved shift := rfl

lemma ListStyle.writeComment_moved (style : ListStyle) (text : Text) (columns : CommentColumns)
    (hline : q.line = p.line + shift) (hlength : q.lineLength = p.lineLength) :
    ∃ written, style.writeComment text p columns = (p.write written, (style.writeComment text p columns).2) ∧
      style.writeComment text q (columns.moved shift) =
        (q.write written, (style.writeComment text p columns).2.moved shift) := by
  have hhere : (columns.moved shift).cell? q.line = columns.cell? p.line := by
    rw [hline, cell?_moved]
  have habove : (columns.moved shift).cell? (q.line - 1) = columns.cell? (p.line - 1) := by
    rw [hline, show p.line + shift - 1 = p.line - 1 + shift by omega, cell?_moved]
  unfold writeComment
  rw [hhere, habove, hlength]
  cases columns.cell? p.line with
  | some cell =>
    refine ⟨List.replicate (columns.column cell - p.lineLength : Int).toNat ' ' ++ text, ?_, ?_⟩
    · rw [← Page.write_append]
      rfl
    · rw [← Page.write_append]
      rfl
  | none =>
    refine ⟨text, rfl, ?_⟩
    dsimp only
    rw [hline, fresh_moved]
    cases columns.cell? (p.line - 1) with
    | none => rfl
    | some cell =>
      have hcolumn : (columns.moved shift).column cell = columns.column cell := rfl
      dsimp only
      rw [join_moved, hcolumn]
      split <;> rfl

/-- No comment is aligned with others before the first line end. -/
def FreeStart : List Entry → Prop
  | [] => True
  | entry :: entries => entry.gap ≠ .sameLine ∨ (∀ text, entry.item ≠ .aligned text) ∧ FreeStart entries

/-- The text of the space in front of a member. -/
def Gap.text (level : Nat) : Gap → Text
  | .sameLine => [' ']
  | .nextLine => '\n' :: List.replicate level '\t'
  | .blankLine => '\n' :: '\n' :: List.replicate level '\t'

lemma Gap.write_eq (gap : Gap) (level : Nat) (page : Page) :
    gap.write level page = page.write (gap.text level) := by
  cases gap with
  | sameLine => rfl
  | nextLine => exact Page.write_append _ _ _
  | blankLine => exact Page.write_append _ _ _

lemma Gap.newline_mem_text {gap : Gap} (h : gap ≠ .sameLine) (level : Nat) : '\n' ∈ gap.text level := by
  cases gap with
  | sameLine => exact absurd rfl h
  | nextLine => exact List.mem_cons_self
  | blankLine => exact List.mem_cons_self

/-- The columns behind a member that was written from one page to another. -/
def ListStyle.columnsBehind (style : ListStyle) (start written : Page) (columns : CommentColumns) :
    CommentColumns :=
  if style.breaksAlignment && written.line ≠ start.line then columns.fresh written.line 0 else columns

lemma ListStyle.writeEntry_eq (style : ListStyle) (entry : Entry) (page : Page) (columns : CommentColumns) :
    style.writeEntry entry page columns =
      let start := page.write (entry.gap.text style.level)
      let written := style.writeItem entry.item start columns
      (written.1, style.columnsBehind start written.1 written.2) := by
  unfold writeEntry columnsBehind
  rw [Gap.write_eq]
  dsimp only
  split <;> rfl

lemma line_write_moved (hline : q.line = p.line + shift) (t : Text) :
    (q.write t).line = (p.write t).line + shift := by
  simp only [Page.write, hline]
  omega

lemma ListStyle.columnsBehind_moved (style : ListStyle) (columns : CommentColumns)
    (hline : q.line = p.line + shift) (t : Text) :
    style.columnsBehind q (q.write t) (columns.moved shift) =
      (style.columnsBehind p (p.write t) columns).moved shift := by
  have hlines : decide ((q.write t).line ≠ q.line) = decide ((p.write t).line ≠ p.line) := by
    rw [line_write_moved hline, hline, decide_eq_decide]
    omega
  unfold columnsBehind
  rw [hlines, line_write_moved hline, fresh_moved]
  split <;> rfl

/-- A member is written alike on two pages, and behind it they are again equally far from the left, or else
what follows does not need it. -/
lemma ListStyle.writeEntry_moved (style : ListStyle) (columns : CommentColumns)
    (hline : q.line = p.line + shift) (h : q.lineLength = p.lineLength ∨ FreeStart (entry :: entries)) :
    ∃ written, style.writeEntry entry p columns = (p.write written, (style.writeEntry entry p columns).2) ∧
      style.writeEntry entry q (columns.moved shift) =
        (q.write written, (style.writeEntry entry p columns).2.moved shift) ∧
      ((q.write written).lineLength = (p.write written).lineLength ∨ FreeStart entries) := by
  have hstart := line_write_moved hline (entry.gap.text style.level)
  have hlengths : (q.write (entry.gap.text style.level)).lineLength =
      (p.write (entry.gap.text style.level)).lineLength ∨
        (∀ text, entry.item ≠ .aligned text) ∧ FreeStart entries := by
    rcases h with hlength | hgap | hfree
    · exact .inl (Page.lineLength_write_congr hlength _)
    · exact .inl (Page.lineLength_write_of_mem _ _ (Gap.newline_mem_text hgap _))
    · exact .inr hfree
  have hitem : ∃ text, style.writeItem entry.item (p.write (entry.gap.text style.level)) columns =
      ((p.write (entry.gap.text style.level)).write text,
        (style.writeItem entry.item (p.write (entry.gap.text style.level)) columns).2) ∧
      style.writeItem entry.item (q.write (entry.gap.text style.level)) (columns.moved shift) =
        ((q.write (entry.gap.text style.level)).write text,
          (style.writeItem entry.item (p.write (entry.gap.text style.level)) columns).2.moved shift) := by
    cases hitem : entry.item with
    | code text => exact ⟨text, rfl, rfl⟩
    | alone text => exact ⟨text, rfl, rfl⟩
    | aligned text =>
      rcases hlengths with hlength | ⟨hfree, -⟩
      · exact style.writeComment_moved text columns hstart hlength
      · exact absurd hitem (hfree text)
  obtain ⟨text, hp, hq⟩ := hitem
  refine ⟨entry.gap.text style.level ++ text, ?_, ?_, ?_⟩
  · rw [style.writeEntry_eq]
    dsimp only
    rw [hp, Page.write_append]
  · rw [style.writeEntry_eq, style.writeEntry_eq]
    dsimp only
    rw [hp, hq, style.columnsBehind_moved _ hstart, Page.write_append, Page.write_append]
  · rw [← Page.write_append, ← Page.write_append]
    exact hlengths.imp (Page.lineLength_write_congr · text) And.right

lemma ListStyle.pass_moved (style : ListStyle) (columns : CommentColumns) (hline : q.line = p.line + shift)
    (h : q.lineLength = p.lineLength ∨ FreeStart entries) :
    ∃ written, style.pass entries p columns = (p.write written, (style.pass entries p columns).2) ∧
      style.pass entries q (columns.moved shift) =
        (q.write written, (style.pass entries p columns).2.moved shift) := by
  induction entries generalizing p q columns with
  | nil => exact ⟨[], by rw [Page.write_nil]; rfl, by rw [Page.write_nil]; rfl⟩
  | cons entry entries ih =>
    obtain ⟨first, hp, hq, hnext⟩ := style.writeEntry_moved columns hline h
    obtain ⟨rest, hp', hq'⟩ := ih (style.writeEntry entry p columns).2 (line_write_moved hline first) hnext
    refine ⟨first ++ rest, ?_, ?_⟩
    · rw [pass_cons, hp, ← Page.write_append]
      exact hp'
    · rw [pass_cons, pass_cons, hp, hq, ← Page.write_append]
      exact hq'

lemma ListStyle.write_moved (style : ListStyle) (p q : Page)
    (h : q.lineLength = p.lineLength ∨ FreeStart entries) :
    ∃ written, style.write entries p = p.write written ∧ style.write entries q = q.write written := by
  have hline : q.line = p.line + (q.line - p.line) := by omega
  have hfork : q.fork.lineLength = p.fork.lineLength ∨ FreeStart entries := by
    rw [Page.lineLength_fork, Page.lineLength_fork]
    exact h
  obtain ⟨_, _, hmeasure⟩ := style.pass_moved .empty (p := p.fork) (q := q.fork) hline hfork
  obtain ⟨written, hp, hq⟩ := style.pass_moved (style.measure entries p) hline h
  have hmeasured : style.measure entries q = (style.measure entries p).moved (q.line - p.line) :=
    congrArg Prod.snd hmeasure
  refine ⟨written, congrArg Prod.fst hp, ?_⟩
  rw [ListStyle.write, hmeasured, hq]

/-! Two ways in which what is written can depend on the page. -/

section Dependence

/-- What is written depends on the current line only. -/
def IsLocal (f : Page → Page) : Prop :=
  ∃ text : Text → Text, ∀ page, f page = page.write (text page.currentLine)

/-- The same is written everywhere, but for a blank that may keep it apart from an ampersand. -/
def IsSteady (f : Page → Page) : Prop :=
  ∃ (apart : Bool) (text : Text), ∀ page,
    f page = page.write (if apart && page.lastChar? == some '&' then ' ' :: text else text)

variable {f g : Page → Page}

lemma IsLocal.write (t : Text) : IsLocal (·.write t) := ⟨fun _ => t, fun _ => rfl⟩

lemma IsLocal.comp (hf : IsLocal f) (hg : IsLocal g) : IsLocal fun page => g (f page) := by
  obtain ⟨first, hf⟩ := hf
  obtain ⟨second, hg⟩ := hg
  refine ⟨fun line => first line ++ second ((Page.behind line 0).write (first line)).currentLine, fun page => ?_⟩
  have hline := Page.currentLine_write_congr (Page.currentLine_behind page.currentLine 0) (first page.currentLine)
  dsimp only
  rw [hf, hg, hline, Page.write_append]

/-- What is written on a fork, and then changed, depends on the current line only. -/
lemma IsLocal.fork (hf : IsLocal f) (change : Text → Text) :
    IsLocal fun page => page.write (change (f page.fork).value) := by
  obtain ⟨text, hf⟩ := hf
  refine ⟨fun line => change (text line), fun page => ?_⟩
  have hvalue : (f page.fork).value = text page.currentLine := by
    rw [hf, Page.currentLine_fork]
    exact Page.value_behind _ _ _
  dsimp only
  rw [hvalue]

lemma IsSteady.write (t : Text) : IsSteady (·.write t) := ⟨false, t, fun _ => rfl⟩

lemma IsSteady.nothing : IsSteady fun page => page := ⟨false, [], fun page => (Page.write_nil page).symm⟩

lemma IsSteady.isLocal (hf : IsSteady f) : IsLocal f := by
  obtain ⟨apart, text, hf⟩ := hf
  refine ⟨fun line => if apart && line.getLast? == some '&' then ' ' :: text else text, fun page => ?_⟩
  have hlast : (page.lastChar? == some '&') = (page.currentLine.getLast? == some '&') := by
    rw [Bool.eq_iff_iff, beq_iff_eq, beq_iff_eq]
    exact page.lastChar?_eq_iff (by decide)
  rw [hf, hlast]

/-- What is written second stands behind the text of the first, which tells whether an ampersand is in front
of it. If there is no such text, both stand at the same place. -/
lemma IsSteady.comp (hf : IsSteady f) (hg : IsSteady g) : IsSteady fun page => g (f page) := by
  obtain ⟨apart, first, hf⟩ := hf
  obtain ⟨apart', second, hg⟩ := hg
  by_cases hfirst : first = []
  · refine ⟨apart || apart', second, fun page => ?_⟩
    dsimp only
    rw [hg, hf, hfirst]
    cases apart with
    | false => simp [Page.write_nil]
    | true =>
      by_cases hlast : page.lastChar? = some '&'
      · simp [hlast, Page.lastChar?_write, Page.write_append]
      · simp [hlast, Page.write_nil]
  · refine ⟨apart, first ++ if apart' && first.getLast? == some '&' then ' ' :: second else second,
      fun page => ?_⟩
    have hlast : (f page).lastChar? = first.getLast? := by
      rw [hf]
      split
      · rw [Page.lastChar?_write _ (List.cons_ne_nil _ _), List.getLast?_cons_of_ne_nil hfirst]
      · exact Page.lastChar?_write _ hfirst
    dsimp only
    rw [hg, hlast, hf, Page.write_append]
    split <;> rfl

lemma IsSteady.ite {condition : Prop} [Decidable condition] (hf : IsSteady f) (hg : IsSteady g) :
    IsSteady fun page => if condition then f page else g page := by
  by_cases h : condition
  · simpa only [if_pos h] using hf
  · simpa only [if_neg h] using hg

end Dependence

section Delimiters

lemma ListStyle.write_isLocal (style : ListStyle) (entries : List Entry) : IsLocal (style.write entries) := by
  refine ⟨fun line => (style.write entries (.behind line 0)).value, fun page => ?_⟩
  have hlength : page.lineLength = (Page.behind page.currentLine 0).lineLength := by
    rw [Page.lineLength, Page.lineLength, Page.currentLine_behind]
  obtain ⟨written, hbehind, hpage⟩ := style.write_moved (.behind page.currentLine 0) page (.inl hlength)
  dsimp only
  rw [hpage, hbehind, Page.value_behind]

lemma writeBraces_isLocal (level : Nat) (entries : List Entry) : IsLocal (writeBraces level entries) := by
  unfold writeBraces
  by_cases h : entries.isEmpty
  · simp only [if_pos h]
    exact .write _
  · simp only [if_neg h]
    exact (((IsLocal.write _).comp (ListStyle.write_isLocal _ _)).comp (.write _)).comp (.write _)
      |>.comp (.write _)

lemma writeDelimited_isLocal (level : Nat) (entries : List Entry) : IsLocal (writeDelimited level entries) :=
  (((IsLocal.write _).comp (ListStyle.write_isLocal _ _)).comp (.write _)).comp (.write _) |>.comp (.write _)

lemma writeDelimited_isSteady (level : Nat) (h : FreeStart entries) :
    IsSteady (writeDelimited level entries) := by
  have hlist : IsSteady ((valueStyle level).write entries) := by
    refine ⟨false, ((valueStyle level).write entries .blank).value, fun page => ?_⟩
    obtain ⟨written, hblank, hpage⟩ := (valueStyle level).write_moved .blank page (.inr h)
    rw [hpage, hblank, Page.blank, Page.value_behind]
    rfl
  exact (((IsSteady.write _).comp hlist).comp (.write _)).comp (.write _) |>.comp (.write _)

end Delimiters

end Lists

section Expressions

lemma PrefixOp.write_isSteady (op : PrefixOp) : IsSteady op.write := by
  have hapart (t : Text) : IsSteady fun page : Page =>
      (if page.lastChar? == some '&' then page.write [' '] else page).write t := by
    refine ⟨true, t, fun page => ?_⟩
    dsimp only
    rw [Bool.true_and]
    split
    · exact Page.write_append _ _ _
    · rfl
  cases op with
  | address => exact hapart _
  | clone => exact .write _
  | dereference => exact .write _
  | unary op =>
    cases op with
    | identity => exact .nothing
    | complement => exact hapart _
    | _ => exact .write _

lemma freeStart_valueEntriesOf (level : Nat) {values : List ValuePlan}
    (h : GapsOk false (values.map ValuePlan.mark)) : FreeStart (valueEntriesOf level true values) := by
  have hrest : ∀ values : List ValuePlan, GapsOk true (values.map ValuePlan.mark) →
      FreeStart (valueEntriesOf level false values) := by
    intro values h
    cases values with
    | nil => trivial
    | cons value values =>
      cases value with
      | _ => exact .inl fun hgap => absurd (h.1 hgap).2 (by decide)
  cases values with
  | nil => trivial
  | cons value values =>
    cases value with
    | comment gap text => exact .inr ⟨fun _ => by simp, hrest values h.2⟩
    | dereference gap name => exact .inl fun hgap => absurd (h.1 hgap).1 (by decide)
    | value gap value => exact .inl fun hgap => absurd (h.1 hgap).1 (by decide)

mutual
/-- An expression is the same text everywhere, but for the blank in front of it. -/
lemma ExprPlan.write_isSteady (level outer : Nat) (tight right : Bool) :
    ∀ e : ExprPlan, e.WF → IsSteady fun page => e.write level outer tight right page := by
  intro e h
  cases e with
  | prefixed op operand =>
    rw [ExprPlan.WF] at h
    simp only [ExprPlan.write]
    exact op.write_isSteady.comp (operand.write_isSteady _ _ _ _ h.2)
  | binary left op operand =>
    rw [ExprPlan.WF] at h
    simp only [ExprPlan.write]
    generalize BinaryStyle.choose op.precedence outer tight right = style
    have hparen (t : Text) : IsSteady fun page : Page => if style.parens then page.write t else page :=
      .ite (.write _) .nothing
    have hleft := (hparen ['(']).comp (left.write_isSteady level op.precedence style.tight false h.1)
    exact ((hleft.comp (.write _)).comp (operand.write_isSteady _ _ _ _ h.2)).comp (hparen [')'])
  | call names spread args =>
    rw [ExprPlan.WF] at h
    cases spread with
    | true =>
      simp only [ExprPlan.write, if_pos]
      exact (IsSteady.write _).comp (writeDelimited_isSteady level (freeStart_valueEntriesOf level h.2.1.2))
    | false =>
      simp only [ExprPlan.write, Bool.false_eq_true, if_false]
      have hname := (IsSteady.write (Text.join ['.'] names)).comp (.write ['('])
      exact (hname.comp (writeInline_isSteady true args h.2.2)).comp (.write _)
  | index names subscript =>
    rw [ExprPlan.WF] at h
    simp only [ExprPlan.write]
    exact ((IsSteady.write _).comp (subscript.write_isSteady _ _ _ _ h.2)).comp (.write _)
  | boolean value =>
    simp only [ExprPlan.write]
    exact .write _
  | literal kind source =>
    simp only [ExprPlan.write]
    exact .write _
  | nil =>
    simp only [ExprPlan.write]
    exact .write _
  | selector names =>
    simp only [ExprPlan.write]
    exact .write _
  | zero =>
    simp only [ExprPlan.write]
    exact .write _

lemma writeInline_isSteady (first : Bool) :
    ∀ values : List ValuePlan, ValuesWF values → IsSteady fun page => writeInline first page values := by
  intro values h
  have hcomma : IsSteady fun page : Page => if first then page else page.write ", " :=
    .ite .nothing (.write _)
  cases values with
  | nil =>
    simp only [writeInline]
    exact .nothing
  | cons value values =>
    cases value with
    | comment gap text =>
      rw [ValuesWF] at h
      simp only [writeInline]
      exact writeInline_isSteady first values h.2
    | dereference gap name =>
      rw [ValuesWF] at h
      simp only [writeInline]
      exact (hcomma.comp (.write _)).comp (writeInline_isSteady false values h.2)
    | value gap value =>
      rw [ValuesWF] at h
      simp only [writeInline]
      exact (hcomma.comp (value.write_isSteady _ _ _ _ h.1)).comp (writeInline_isSteady false values h.2)
end

lemma ExprPlan.writeGuarded_isLocal (level : Nat) {value : ExprPlan} (h : value.WF) :
    IsLocal fun page => value.writeGuarded level page :=
  (value.write_isSteady level 0 false false h).isLocal.fork fun text =>
    if text.head? == some '\x7b' then '(' :: text ++ [')'] else text

lemma writeValuesOf_isLocal (level : Nat) (guards : List Char) (spread : Bool) {values : List ValuePlan}
    (h : ValuesWF values) : IsLocal fun page => writeValuesOf level guards page spread values := by
  unfold writeValuesOf
  cases spread with
  | true => exact writeDelimited_isLocal level _
  | false =>
    exact (writeInline_isSteady true values h).isLocal.fork fun text =>
      if text.head?.any guards.contains then '(' :: text ++ [')'] else text

end Expressions

section Statements

lemma writeRow_isLocal (values : List Text) (widths : List Nat) :
    IsLocal fun page => writeRow page values widths := by
  induction values generalizing widths with
  | nil => exact IsSteady.nothing.isLocal
  | cons value values ih =>
    cases values with
    | nil => exact .write _
    | cons next values => exact ((IsLocal.write _).comp (.write _)).comp (ih widths.tail)

lemma TargetPlan.write_isLocal (level : Nat) {target : TargetPlan} (h : target.WF) :
    IsLocal fun page => target.write level page := by
  cases target with
  | dereference name => exact .write _
  | call names spread args => exact (ExprPlan.write_isSteady level 0 false false _ h.1).isLocal
  | index names subscript =>
    have hsubscript := (subscript.write_isSteady 0 0 true false h.2).isLocal
    exact ((IsLocal.write _).comp hsubscript).comp (.write _)
  | selector names => exact .write _

lemma writeTargetsOf_isLocal (level : Nat) (first : Bool) {targets : List TargetPlan}
    (h : ∀ target ∈ targets, target.WF) : IsLocal fun page => writeTargetsOf level first page targets := by
  induction targets generalizing first with
  | nil => exact IsSteady.nothing.isLocal
  | cons target targets ih =>
    rw [List.forall_mem_cons] at h
    have hcomma : IsLocal fun page : Page => if first then page else page.write ", " :=
      (IsSteady.ite .nothing (.write _)).isLocal
    exact (hcomma.comp (target.write_isLocal level h.1)).comp (ih false h.2)

lemma StatementPlan.write_isLocal (level : Nat) (row : Option (List Nat)) {s : StatementPlan} (h : s.WF) :
    IsLocal fun page => s.write level row page := by
  cases s with
  | assign targets spread values =>
    rw [StatementPlan.WF] at h
    simp only [StatementPlan.write]
    exact ((writeTargetsOf_isLocal _ true h.1.2).comp (.write _)).comp (writeValuesOf_isLocal _ _ spread h.2.2.2)
  | block body =>
    simp only [StatementPlan.write]
    exact writeBraces_isLocal _ _
  | jump kind => cases kind <;> exact .write _
  | expression value =>
    rw [StatementPlan.WF] at h
    simp only [StatementPlan.write]
    exact ExprPlan.writeGuarded_isLocal _ h
  | loop body =>
    simp only [StatementPlan.write]
    exact (IsLocal.write _).comp (writeBraces_isLocal _ _)
  | loopWhile test body =>
    rw [StatementPlan.WF] at h
    simp only [StatementPlan.write]
    have htest := (IsLocal.write "for ").comp (ExprPlan.writeGuarded_isLocal (level + 1) h.1)
    exact (htest.comp (.write _)).comp (writeBraces_isLocal _ _)
  | ifElse test thenBody elseBody =>
    rw [StatementPlan.WF] at h
    simp only [StatementPlan.write]
    have htest := (IsLocal.write "if ").comp (ExprPlan.writeGuarded_isLocal (level + 1) h.1)
    have hthen (entries : List Entry) :=
      (htest.comp (.write [' '])).comp (writeBraces_isLocal (level + 1) entries)
    split
    · exact hthen _
    · exact ((hthen _).comp (.write _)).comp (writeBraces_isLocal _ _)
  | returnValues spread values =>
    rw [StatementPlan.WF] at h
    simp only [StatementPlan.write]
    exact (IsLocal.write _).comp (writeValuesOf_isLocal _ _ spread h.2)
  | declare names type =>
    simp only [StatementPlan.write]
    exact (writeRow_isLocal _ _).comp (.write _)
  | define names spread values =>
    rw [StatementPlan.WF] at h
    simp only [StatementPlan.write]
    exact ((writeRow_isLocal _ _).comp (.write _)).comp (writeValuesOf_isLocal _ _ spread h.2.2)

end Statements

end DpLang
