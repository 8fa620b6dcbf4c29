import DpLang.Proofs.SpellingStatement

/-!
# Alignment of comments

A list is written twice, and after the first time its comments have their columns: lines keep the cells
that they have got, the columns of cells only move to the right, and a cell whose column is not right of
the floor does not move at all. So the second pass finds a column for every comment and changes none.
-/

namespace DpLang

section Pages

namespace Page

variable {t : Text}

lemma currentLine_write_of_notMem (p : Page) (h : '\n' ∉ t) : (p.write t).currentLine = p.currentLine ++ t := by
  have hall : ∀ c ∈ t.reverse, (c != '\n') = true := by
    intro c hc
    rw [bne_iff_ne]
    rintro rfl
    exact h (List.mem_reverse.1 hc)
  have hcontains : (t.reverse ++ p.written).contains '\n' = p.written.contains '\n' := by
    have hnot : t.reverse.contains '\n' = false := by simpa using h
    rw [List.contains_append, hnot, Bool.false_or]
  unfold currentLine write
  dsimp only
  rw [hcontains, List.takeWhile_append_of_pos hall, List.reverse_append, List.reverse_reverse]
  split
  · rfl
  · rw [List.append_assoc]

lemma currentLine_write_of_mem (p q : Page) (h : '\n' ∈ t) :
    (p.write t).currentLine = (q.write t).currentLine := by
  have hline (p : Page) : (p.write t).currentLine = (t.reverse.takeWhile (· != '\n')).reverse := by
    have hcontains : (t.reverse ++ p.written).contains '\n' = true := by simp [h]
    have hshort : (t.reverse.takeWhile (· != '\n')).length ≠ t.reverse.length := by
      intro hlength
      have hall := List.takeWhile_eq_self_iff.1 ((List.takeWhile_prefix _).eq_of_length hlength)
      exact absurd (hall '\n' (List.mem_reverse.2 h)) (by decide)
    unfold currentLine write
    dsimp only
    rw [if_pos hcontains, List.takeWhile_append, if_neg hshort]
  rw [hline p, hline q]

lemma lineLength_write_of_notMem (p : Page) (h : '\n' ∉ t) :
    (p.write t).lineLength = p.lineLength + t.length := by
  rw [lineLength, currentLine_write_of_notMem p h, List.length_append, lineLength]

lemma lineLength_write_of_mem (p q : Page) (h : '\n' ∈ t) :
    (p.write t).lineLength = (q.write t).lineLength := by
  rw [lineLength, lineLength, currentLine_write_of_mem p q h]

lemma lineLength_write_congr {p q : Page} (h : p.lineLength = q.lineLength) (t : Text) :
    (p.write t).lineLength = (q.write t).lineLength := by
  by_cases ht : '\n' ∈ t
  · exact lineLength_write_of_mem p q ht
  · rw [lineLength_write_of_notMem p ht, lineLength_write_of_notMem q ht, h]

lemma line_write_of_notMem (p : Page) (h : '\n' ∉ t) : (p.write t).line = p.line := by
  have hnone : t.newlines = 0 := List.count_eq_zero.2 h
  rw [write, hnone]
  exact Int.add_zero p.line

lemma line_write_of_mem (p : Page) (h : '\n' ∈ t) : p.line < (p.write t).line := by
  have hsome : 0 < t.newlines := List.count_pos_iff.2 h
  change p.line < p.line + (t.newlines : Int)
  omega

lemma newline_notMem_replicate (n : Nat) {c : Char} (h : c ≠ '\n') : '\n' ∉ List.replicate n c :=
  fun hmem => h (List.eq_of_mem_replicate hmem).symm

lemma line_pad (p : Page) (amount : Int) : (p.pad amount).line = p.line :=
  p.line_write_of_notMem (newline_notMem_replicate _ (by decide))

lemma lineLength_pad (p : Page) (amount : Int) : (p.pad amount).lineLength = p.lineLength + amount.toNat := by
  rw [pad, p.lineLength_write_of_notMem (newline_notMem_replicate _ (by decide)), List.length_replicate]

lemma lineLength_fork (p : Page) : p.fork.lineLength = p.lineLength := by
  rw [fork, behind, lineLength, lineLength, currentLine]
  simp

end Page

end Pages

section Columns

namespace CommentColumns

variable {columns : CommentColumns} {line other : Int} {cell new column : Nat}

def column? (columns : CommentColumns) (line : Int) : Option Nat := (columns.cell? line).map columns.column

lemma lookup_line (cell : Nat) (lines : List (Int × Nat)) :
    ((line, cell) :: lines).lookup other = if other = line then some cell else lines.lookup other := by
  rw [List.lookup_cons]
  by_cases h : other = line
  · simp [h]
  · rw [beq_false_of_ne h, if_neg h]

lemma cell?_fresh : (columns.fresh line column).cell? other =
    if other = line then some columns.cells.length else columns.cell? other :=
  lookup_line _ _

lemma cell?_join : (columns.join line cell column).cell? other =
    if other = line then some cell else columns.cell? other :=
  lookup_line _ _

lemma column_fresh_self : (columns.fresh line column).column columns.cells.length = column := by
  simp [CommentColumns.column, fresh, List.getD]

lemma column_fresh_of_lt (h : cell < columns.cells.length) :
    (columns.fresh line column).column cell = columns.column cell := by
  simp [CommentColumns.column, fresh, List.getD, List.getElem?_append_left h]

lemma column_fresh_zero : (columns.fresh line 0).column cell = columns.column cell := by
  by_cases h : cell < columns.cells.length
  · exact column_fresh_of_lt h
  · have hold : columns.column cell = 0 := by simp [CommentColumns.column, List.getD, Nat.not_lt.1 h]
    rw [hold]
    by_cases hlast : cell = columns.cells.length
    · rw [hlast, column_fresh_self]
    · have hnone : (columns.cells ++ [0])[cell]? = none :=
        List.getElem?_eq_none (by rw [List.length_append, List.length_singleton]; omega)
      rw [CommentColumns.column, fresh, List.getD, hnone]
      rfl

lemma column?_fresh_zero :
    (columns.fresh line 0).column? other = if other = line then some 0 else columns.column? other := by
  rw [column?, column?, cell?_fresh]
  split
  · rw [Option.map_some, column_fresh_self]
  · exact congrArg (fun f => (columns.cell? other).map f) (funext fun _ => column_fresh_zero)

lemma column_join_self (h : cell < columns.cells.length) :
    (columns.join line cell column).column cell = max column (columns.column cell) := by
  simp [CommentColumns.column, join, List.getD, h]

lemma column_join_of_ne (h : new ≠ cell) :
    (columns.join line cell column).column new = columns.column new := by
  simp [CommentColumns.column, join, List.getD, h.symm]

end CommentColumns

end Columns

section Entries

def Entry.isComment (entry : Entry) : Bool :=
  match entry.item with
  | .code _ => false
  | _ => true

/-- The entry may follow another one: only a comment stays on its line, and not behind a comment. A
comment does not end a line. -/
structure Entry.Follows (entry : Entry) (previous : Option Entry) : Prop where
  gap : entry.gap = .sameLine → entry.isComment = true ∧ ∀ other ∈ previous, other.isComment = false
  line : entry.isComment = true → '\n' ∉ entry.item.text

/-- Each entry may follow the one before it. -/
def Follow (previous : Option Entry) : List Entry → Prop
  | [] => True
  | entry :: entries => entry.Follows previous ∧ Follow (some entry) entries

def lastEntry (previous : Option Entry) (entries : List Entry) : Option Entry :=
  entries.foldl (fun _ entry => some entry) previous

variable {previous : Option Entry} {entry : Entry} {page a b : Page} {level : Nat}

lemma line_gap_of_ne {gap : Gap} (h : gap ≠ .sameLine) : page.line < (gap.write level page).line := by
  have hindent (p : Page) : (p.indent level).line = p.line :=
    p.line_write_of_notMem (Page.newline_notMem_replicate _ (by decide))
  cases gap with
  | sameLine => exact absurd rfl h
  | nextLine =>
    rw [Gap.write, hindent]
    exact page.line_write_of_mem (by decide)
  | blankLine =>
    rw [Gap.write, hindent]
    exact page.line_write_of_mem (by decide)

lemma line_gap_sameLine : (Gap.sameLine.write level page).line = page.line :=
  page.line_write_of_notMem (by decide)

lemma line_gap_congr (gap : Gap) (h : a.line = b.line) :
    (gap.write level a).line = (gap.write level b).line := by
  cases gap with
  | _ => simp only [Gap.write, Page.indent, Page.write, h]

lemma lineLength_gap_of_ne {gap : Gap} (h : gap ≠ .sameLine) (a b : Page) :
    (gap.write level a).lineLength = (gap.write level b).lineLength := by
  cases gap with
  | sameLine => exact absurd rfl h
  | nextLine => exact Page.lineLength_write_congr (Page.lineLength_write_of_mem a b (by decide)) _
  | blankLine => exact Page.lineLength_write_congr (Page.lineLength_write_of_mem a b (by decide)) _

/-- Two pages stand at the same place, unless a comment is the last thing on their line. -/
structure InStep (previous : Option Entry) (a b : Page) : Prop where
  line : a.line = b.line
  length : (∀ entry ∈ previous, entry.isComment = false) → a.lineLength = b.lineLength

lemma InStep.gap (h : InStep previous a b) (hentry : entry.Follows previous) (level : Nat) :
    (entry.gap.write level a).line = (entry.gap.write level b).line ∧
      (entry.gap.write level a).lineLength = (entry.gap.write level b).lineLength := by
  refine ⟨line_gap_congr _ h.line, ?_⟩
  by_cases hgap : entry.gap = .sameLine
  · rw [hgap]
    exact Page.lineLength_write_congr (h.length (hentry.gap hgap).2) _
  · exact lineLength_gap_of_ne hgap a b

end Entries

section Measuring

/-- Cells of lines stay, their columns move to the right only, and not at all if they are not right of
the floor. -/
structure Widens (floor : Nat) (before after : CommentColumns) : Prop where
  cells : ∀ line cell, before.cell? line = some cell → after.cell? line = some cell
  count : before.cells.length ≤ after.cells.length
  columns : ∀ cell < before.cells.length, before.column cell ≤ after.column cell ∧
    (before.column cell ≤ floor → after.column cell = before.column cell)

lemma Widens.refl (floor : Nat) (columns : CommentColumns) : Widens floor columns columns :=
  ⟨fun _ _ h => h, le_rfl, fun _ _ => ⟨le_rfl, fun _ => rfl⟩⟩

lemma Widens.trans {floor : Nat} {a b c : CommentColumns} (hab : Widens floor a b) (hbc : Widens floor b c) :
    Widens floor a c where
  cells line cell h := hbc.cells line cell (hab.cells line cell h)
  count := hab.count.trans hbc.count
  columns cell h := by
    obtain ⟨hle, heq⟩ := hab.columns cell h
    obtain ⟨hle', heq'⟩ := hbc.columns cell (h.trans_le hab.count)
    refine ⟨hle.trans hle', fun hfloor => ?_⟩
    rw [heq' (by rw [heq hfloor]; exact hfloor), heq hfloor]

/-- A member over several lines, behind which comments are not aligned with those before it. -/
def Breaks (style : ListStyle) (entry : Entry) : Prop :=
  style.breaksAlignment = true ∧ ∃ text, entry.item = .code text ∧ '\n' ∈ text

/-- Lines up to a number have cells, and neighbours share a cell unless the upper one is not right of
the floor. -/
structure Consistent (floor : Nat) (line : Int) (columns : CommentColumns) : Prop where
  range : ∀ other cell, columns.cell? other = some cell → other ≤ line ∧ cell < columns.cells.length
  shared : ∀ other upper lower, columns.cell? other = some upper → columns.cell? (other + 1) = some lower →
    upper = lower ∨ columns.column upper ≤ floor

/-- What holds while a list is measured, behind an entry: the line has a cell only from its comment, or
because the alignment is broken here. -/
structure Measured (style : ListStyle) (previous : Option Entry) (page : Page) (columns : CommentColumns) :
    Prop extends Consistent style.floor page.line columns where
  here : ∀ cell, columns.cell? page.line = some cell →
    ∃ entry, previous = some entry ∧ (entry.isComment = true ∨
      (Breaks style entry ∧ columns.column cell = 0 ∧ columns.cell? (page.line - 1) = none))

variable {style : ListStyle} {previous : Option Entry} {entry : Entry} {page : Page}
  {columns : CommentColumns} {line other : Int} {floor cell column : Nat}

lemma Consistent.mono (h : Consistent floor line columns) (hline : line ≤ other) :
    Consistent floor other columns :=
  ⟨fun key cell hcell => ⟨(h.range key cell hcell).1.trans hline, (h.range key cell hcell).2⟩, h.shared⟩

lemma cell?_of_fresh {key : Int} (h : (columns.fresh line column).cell? key = some cell) :
    (key = line ∧ cell = columns.cells.length) ∨ (key ≠ line ∧ columns.cell? key = some cell) := by
  rw [CommentColumns.cell?_fresh] at h
  split at h
  · next heq => exact .inl ⟨heq, (Option.some.inj h).symm⟩
  · next hne => exact .inr ⟨hne, h⟩

lemma cell?_of_join {key : Int} {found : Nat} (h : (columns.join line cell column).cell? key = some found) :
    (key = line ∧ found = cell) ∨ (key ≠ line ∧ columns.cell? key = some found) := by
  rw [CommentColumns.cell?_join] at h
  split at h
  · next heq => exact .inl ⟨heq, (Option.some.inj h).symm⟩
  · next hne => exact .inr ⟨hne, h⟩

lemma Consistent.fresh (h : Consistent floor line columns)
    (habove : ∀ cell, columns.cell? (line - 1) = some cell → columns.column cell ≤ floor) (column : Nat) :
    Consistent floor line (columns.fresh line column) where
  range key cell hcell := by
    have hcount : (columns.fresh line column).cells.length = columns.cells.length + 1 := by
      simp [CommentColumns.fresh]
    rw [hcount]
    rcases cell?_of_fresh hcell with ⟨rfl, rfl⟩ | ⟨-, hold⟩
    · exact ⟨le_rfl, Nat.lt_succ_self _⟩
    · obtain ⟨hle, hlt⟩ := h.range key cell hold
      exact ⟨hle, hlt.trans (Nat.lt_succ_self _)⟩
  shared key upper lower hupper hlower := by
    rcases cell?_of_fresh hupper with ⟨rfl, rfl⟩ | ⟨-, hold⟩
    · rcases cell?_of_fresh hlower with ⟨hkey, -⟩ | ⟨-, hbelow⟩
      · omega
      · have hle := (h.range _ lower hbelow).1
        omega
    · rw [CommentColumns.column_fresh_of_lt (h.range key upper hold).2]
      rcases cell?_of_fresh hlower with ⟨hkey, -⟩ | ⟨-, hbelow⟩
      · exact .inr (habove upper (by rw [← hkey, Int.add_sub_cancel]; exact hold))
      · exact h.shared key upper lower hold hbelow

lemma Consistent.join (h : Consistent floor line columns) (hnone : columns.cell? line = none)
    (habove : columns.cell? (line - 1) = some cell) (hfloor : floor < columns.column cell) (column : Nat) :
    Consistent floor line (columns.join line cell column) where
  range key found hfound := by
    have hcount : (columns.join line cell column).cells.length = columns.cells.length := by
      simp [CommentColumns.join]
    rw [hcount]
    rcases cell?_of_join hfound with ⟨rfl, rfl⟩ | ⟨-, hold⟩
    · exact ⟨le_rfl, (h.range _ _ habove).2⟩
    · exact h.range key found hold
  shared key upper lower hupper hlower := by
    have hmoved : columns.column upper ≤ floor → (columns.join line cell column).column upper ≤ floor := by
      intro hle
      have hne : upper ≠ cell := by
        rintro rfl
        omega
      rwa [CommentColumns.column_join_of_ne hne]
    rcases cell?_of_join hupper with ⟨rfl, rfl⟩ | ⟨-, hold⟩
    · rcases cell?_of_join hlower with ⟨hkey, -⟩ | ⟨-, hbelow⟩
      · omega
      · have hle := (h.range _ lower hbelow).1
        omega
    · rcases cell?_of_join hlower with ⟨hkey, rfl⟩ | ⟨-, hbelow⟩
      · rw [← hkey, Int.add_sub_cancel, hold] at habove
        exact .inl (Option.some.inj habove)
      · exact (h.shared key upper lower hold hbelow).imp_right hmoved

/-- In front of an entry, the line has a cell only behind a member over several lines. -/
lemma Measured.start (h : Measured style previous page columns) (hentry : entry.Follows previous)
    (hcell : columns.cell? (entry.gap.write style.level page).line = some cell) :
    entry.gap = .sameLine ∧ (∃ other, previous = some other ∧ Breaks style other) ∧
      columns.column cell = 0 ∧ columns.cell? ((entry.gap.write style.level page).line - 1) = none := by
  by_cases hgap : entry.gap = .sameLine
  · rw [hgap, line_gap_sameLine] at hcell ⊢
    obtain ⟨other, hother, hcomment | ⟨hbreaks, hzero, hnone⟩⟩ := h.here cell hcell
    · rw [(hentry.gap hgap).2 other hother] at hcomment
      cases hcomment
    · exact ⟨rfl, ⟨other, hother, hbreaks⟩, hzero, hnone⟩
  · have hline : page.line < (entry.gap.write style.level page).line := line_gap_of_ne hgap
    have hle := (h.range _ cell hcell).1
    omega

lemma Measured.consistent_start (h : Measured style previous page columns) (gap : Gap) :
    Consistent style.floor (gap.write style.level page).line columns := by
  refine h.toConsistent.mono ?_
  by_cases hgap : gap = .sameLine
  · rw [hgap, line_gap_sameLine]
  · exact (line_gap_of_ne hgap).le

lemma widens_fresh (floor : Nat) (hnone : columns.cell? line = none) (column : Nat) :
    Widens floor columns (columns.fresh line column) where
  cells key cell h := by
    rw [CommentColumns.cell?_fresh]
    split
    · next heq =>
      rw [heq, hnone] at h
      cases h
    · exact h
  count := by simp [CommentColumns.fresh]
  columns cell h := by
    rw [CommentColumns.column_fresh_of_lt h]
    exact ⟨le_rfl, fun _ => rfl⟩

lemma widens_join (hnone : columns.cell? line = none) (hcell : cell < columns.cells.length)
    (hfloor : floor < columns.column cell) (column : Nat) :
    Widens floor columns (columns.join line cell column) where
  cells key found h := by
    rw [CommentColumns.cell?_join]
    split
    · next heq =>
      rw [heq, hnone] at h
      cases h
    · exact h
  count := by simp [CommentColumns.join]
  columns found h := by
    by_cases heq : found = cell
    · rw [heq, CommentColumns.column_join_self hcell]
      exact ⟨le_max_right _ _, fun hle => absurd hfloor (by omega)⟩
    · rw [CommentColumns.column_join_of_ne heq]
      exact ⟨le_rfl, fun _ => rfl⟩

/-- A comment has a cell. It fits into the column, unless the alignment has been broken on its line. -/
def HasCell (style : ListStyle) (previous : Option Entry) (gap : Gap) (start : Page)
    (before after : CommentColumns) : Prop :=
  ∃ cell, after.cell? start.line = some cell ∧ (start.lineLength ≤ after.column cell ∨
    (gap = .sameLine ∧ (∃ other, previous = some other ∧ Breaks style other) ∧
      before.cell? (start.line - 1) = none))

lemma Measured.comment (h : Measured style previous page columns) (hentry : entry.Follows previous)
    (text : Text) :
    Consistent style.floor (entry.gap.write style.level page).line
      (style.writeComment text (entry.gap.write style.level page) columns).2 ∧
    Widens style.floor columns (style.writeComment text (entry.gap.write style.level page) columns).2 ∧
    HasCell style previous entry.gap (entry.gap.write style.level page) columns
      (style.writeComment text (entry.gap.write style.level page) columns).2 := by
  have hconsistent := h.consistent_start entry.gap
  have hstart (cell : Nat) (hcell : columns.cell? (entry.gap.write style.level page).line = some cell) :=
    h.start hentry hcell
  generalize entry.gap.write style.level page = start at hconsistent hstart
  unfold ListStyle.writeComment
  cases hcell : columns.cell? start.line with
  | some cell =>
    obtain ⟨hgap, hbreaks, -, hnone⟩ := hstart cell hcell
    exact ⟨hconsistent, .refl _ _, cell, hcell, .inr ⟨hgap, hbreaks, hnone⟩⟩
  | none =>
    have hself (column : Nat) :
        (columns.fresh start.line column).cell? start.line = some columns.cells.length := by
      rw [CommentColumns.cell?_fresh, if_pos rfl]
    cases habove : columns.cell? (start.line - 1) with
    | none =>
      refine ⟨hconsistent.fresh (fun cell hcell => ?_) _, widens_fresh _ hcell _, _, hself _, .inl ?_⟩
      · rw [habove] at hcell
        cases hcell
      · rw [CommentColumns.column_fresh_self]
    | some cell =>
      dsimp only
      by_cases hfloor : columns.column cell ≤ style.floor
      · rw [if_pos hfloor]
        refine ⟨hconsistent.fresh (fun found hfound => ?_) _, widens_fresh _ hcell _, _, hself _, .inl ?_⟩
        · rw [habove] at hfound
          rwa [← Option.some.inj hfound]
        · rw [CommentColumns.column_fresh_self]
      · rw [if_neg hfloor]
        have hlt := (hconsistent.range _ cell habove).2
        refine ⟨hconsistent.join hcell habove (Nat.not_le.1 hfloor) _,
          widens_join hcell hlt (Nat.not_le.1 hfloor) _, cell, ?_, .inl ?_⟩
        · rw [CommentColumns.cell?_join, if_pos rfl]
        · rw [CommentColumns.column_join_self hlt]
          exact le_max_left _ _

lemma ListStyle.line_writeComment (style : ListStyle) {text : Text} (h : '\n' ∉ text) (start : Page)
    (columns : CommentColumns) :
    (style.writeComment text start columns).1.line = start.line := by
  unfold ListStyle.writeComment
  split
  · rw [Page.line_write_of_notMem _ h, Page.line_pad]
  · exact Page.line_write_of_notMem _ h

lemma ListStyle.writeEntry_aligned (style : ListStyle) {text : Text} (hitem : entry.item = .aligned text)
    (h : '\n' ∉ text) (page : Page) (columns : CommentColumns) :
    style.writeEntry entry page columns =
      style.writeComment text (entry.gap.write style.level page) columns := by
  unfold ListStyle.writeEntry
  rw [hitem]
  refine if_neg fun hboth => ?_
  rw [Bool.and_eq_true, decide_eq_true_eq] at hboth
  exact hboth.2 (style.line_writeComment h _ columns)

lemma ListStyle.writeEntry_alone (style : ListStyle) {text : Text} (hitem : entry.item = .alone text)
    (h : '\n' ∉ text) (page : Page) (columns : CommentColumns) :
    style.writeEntry entry page columns = ((entry.gap.write style.level page).write text, columns) := by
  unfold ListStyle.writeEntry
  rw [hitem]
  exact if_neg (by simp [Page.line_write_of_notMem _ h])

lemma ListStyle.writeEntry_code (style : ListStyle) {text : Text} (hitem : entry.item = .code text)
    (page : Page) (columns : CommentColumns) :
    (style.writeEntry entry page columns).1 = (entry.gap.write style.level page).write text ∧
      (style.writeEntry entry page columns).2 =
        if style.breaksAlignment = true ∧ '\n' ∈ text then
          columns.fresh ((entry.gap.write style.level page).write text).line 0
        else columns := by
  unfold ListStyle.writeEntry
  rw [hitem]
  dsimp only [ListStyle.writeItem]
  by_cases hmem : '\n' ∈ text
  · have hline := (entry.gap.write style.level page).line_write_of_mem hmem
    by_cases hbreaks : style.breaksAlignment = true
    · rw [if_pos (by simp [hbreaks]; omega), if_pos ⟨hbreaks, hmem⟩]
      exact ⟨rfl, rfl⟩
    · rw [if_neg (by simp [hbreaks]), if_neg (fun h => hbreaks h.1)]
      exact ⟨rfl, rfl⟩
  · rw [if_neg (by simp [Page.line_write_of_notMem _ hmem]), if_neg (fun h => hmem h.2)]
    exact ⟨rfl, rfl⟩

/-- What one entry preserves while a list is measured. -/
lemma Measured.step (h : Measured style previous page columns) (hentry : entry.Follows previous) :
    Measured style (some entry) (style.writeEntry entry page columns).1
        (style.writeEntry entry page columns).2 ∧
      Widens style.floor columns (style.writeEntry entry page columns).2 := by
  cases hitem : entry.item with
  | aligned text =>
    have hcomment : entry.isComment = true := by rw [Entry.isComment, hitem]
    have hnone : '\n' ∉ text := by simpa [hitem, Item.text] using hentry.line hcomment
    obtain ⟨hconsistent, hwidens, -⟩ := h.comment hentry text
    rw [style.writeEntry_aligned hitem hnone]
    refine ⟨⟨?_, fun cell _ => ⟨entry, rfl, .inl hcomment⟩⟩, hwidens⟩
    rwa [style.line_writeComment hnone]
  | alone text =>
    have hcomment : entry.isComment = true := by rw [Entry.isComment, hitem]
    have hnone : '\n' ∉ text := by simpa [hitem, Item.text] using hentry.line hcomment
    rw [style.writeEntry_alone hitem hnone]
    refine ⟨⟨?_, fun cell _ => ⟨entry, rfl, .inl hcomment⟩⟩, .refl _ _⟩
    rw [Page.line_write_of_notMem _ hnone]
    exact h.consistent_start entry.gap
  | code text =>
    have hcode : entry.isComment = false := by rw [Entry.isComment, hitem]
    have hgap : entry.gap ≠ .sameLine := fun hgap => by
      rw [(hentry.gap hgap).1] at hcode
      cases hcode
    have hline : page.line < (entry.gap.write style.level page).line := line_gap_of_ne hgap
    have hold (line : Int) (cell : Nat) (hcell : columns.cell? line = some cell) : line ≤ page.line :=
      (h.range line cell hcell).1
    obtain ⟨hpage, hcolumns⟩ := style.writeEntry_code hitem page columns
    rw [hpage, hcolumns]
    by_cases hbreaks : style.breaksAlignment = true ∧ '\n' ∈ text
    · rw [if_pos hbreaks]
      have hend := (entry.gap.write style.level page).line_write_of_mem hbreaks.2
      generalize (entry.gap.write style.level page).write text = written at hend
      have hnone (line : Int) (hle : written.line - 1 ≤ line) : columns.cell? line = none := by
        rw [Option.eq_none_iff_forall_not_mem]
        intro cell hcell
        have hle' := hold line cell hcell
        omega
      refine ⟨⟨(h.toConsistent.mono (by omega)).fresh (fun cell hcell => ?_) 0, fun cell hcell => ?_⟩,
        widens_fresh _ (hnone _ (by omega)) _⟩
      · rw [hnone _ le_rfl] at hcell
        cases hcell
      · refine ⟨entry, rfl, .inr ⟨⟨hbreaks.1, text, hitem, hbreaks.2⟩, ?_, ?_⟩⟩
        · rw [CommentColumns.cell?_fresh, if_pos rfl] at hcell
          rw [← Option.some.inj hcell, CommentColumns.column_fresh_self]
        · rw [CommentColumns.cell?_fresh, if_neg (by omega), hnone _ le_rfl]
    · rw [if_neg hbreaks]
      have hend : (entry.gap.write style.level page).line ≤
          ((entry.gap.write style.level page).write text).line := by
        by_cases hmem : '\n' ∈ text
        · exact (Page.line_write_of_mem _ hmem).le
        · rw [Page.line_write_of_notMem _ hmem]
      refine ⟨⟨h.toConsistent.mono (by omega), fun cell hcell => ?_⟩, .refl _ _⟩
      have hle := hold _ cell hcell
      omega

/-- What a whole pass preserves while a list is measured. -/
lemma Measured.run {entries : List Entry} (h : Measured style previous page columns)
    (hentries : Follow previous entries) :
    Measured style (lastEntry previous entries) (style.pass entries page columns).1
        (style.pass entries page columns).2 ∧
      Widens style.floor columns (style.pass entries page columns).2 := by
  induction entries generalizing previous page columns with
  | nil => exact ⟨h, .refl _ _⟩
  | cons entry entries ih =>
    obtain ⟨hstep, hwidens⟩ := h.step hentries.1
    obtain ⟨hrun, hrest⟩ := ih hstep hentries.2
    exact ⟨hrun, hwidens.trans hrest⟩

lemma measured_empty (style : ListStyle) (page : Page) : Measured style none page .empty where
  range _ _ h := by cases h
  shared _ _ _ h := by cases h
  here _ h := by cases h

end Measuring

section Emitting

/-- Lines with cells have columns, which may have moved to the right if they are right of the floor. -/
def Settles (floor : Nat) (columns : CommentColumns) (column? : Int → Option Nat) : Prop :=
  ∀ line cell, columns.cell? line = some cell → ∃ column, column? line = some column ∧
    columns.column cell ≤ column ∧ (columns.column cell ≤ floor → column = columns.column cell)

/-- Writes an entry, with a comment in the column of its line. -/
def ListStyle.place (style : ListStyle) (column? : Int → Option Nat) (page : Page) (entry : Entry) : Page :=
  let start := entry.gap.write style.level page
  match entry.item with
  | .aligned text => (start.pad ((column? start.line).getD 0 - start.lineLength)).write text
  | .code text => start.write text
  | .alone text => start.write text

variable {style : ListStyle} {previous : Option Entry} {entry : Entry} {entries : List Entry} {a b : Page}
  {columns final : CommentColumns} {column? : Int → Option Nat} {line : Int} {floor : Nat}

lemma settles_column? (floor : Nat) (columns : CommentColumns) : Settles floor columns columns.column? := by
  intro line cell hcell
  refine ⟨columns.column cell, ?_, le_rfl, fun _ => rfl⟩
  rw [CommentColumns.column?, hcell]
  rfl

lemma Settles.of_widens {after : CommentColumns} (h : Settles floor after column?)
    (hwidens : Widens floor columns after)
    (hrange : ∀ line cell, columns.cell? line = some cell → cell < columns.cells.length) :
    Settles floor columns column? := by
  intro line cell hcell
  obtain ⟨column, hcolumn, hle, heq⟩ := h line cell (hwidens.cells line cell hcell)
  obtain ⟨hle', heq'⟩ := hwidens.columns cell (hrange line cell hcell)
  refine ⟨column, hcolumn, hle'.trans hle, fun hfloor => ?_⟩
  rw [heq (by rw [heq' hfloor]; exact hfloor), heq' hfloor]

lemma ListStyle.writeComment_of_column (style : ListStyle) {text : Text} {start : Page} {column : Nat}
    (h : final.column? start.line = some column) :
    style.writeComment text start final =
      ((start.pad (column - start.lineLength)).write text, final) := by
  rw [CommentColumns.column?, Option.map_eq_some_iff] at h
  obtain ⟨cell, hcell, rfl⟩ := h
  unfold ListStyle.writeComment
  rw [hcell]

lemma Measured.emit_step (h : Measured style previous a columns) (hentry : entry.Follows previous)
    (hstep : InStep previous a b) (hsettles : Settles style.floor (style.writeEntry entry a columns).2 column?)
    (hfinal : ∀ line, final.column? line = column? line) :
    (style.writeEntry entry b final).1 = style.place column? b entry ∧
      (∀ line, (style.writeEntry entry b final).2.column? line = column? line) ∧
      InStep (some entry) (style.writeEntry entry a columns).1 (style.writeEntry entry b final).1 := by
  obtain ⟨hline, hlength⟩ := hstep.gap hentry style.level
  rw [ListStyle.place]
  cases hitem : entry.item with
  | aligned text =>
    have hcomment : entry.isComment = true := by rw [Entry.isComment, hitem]
    have hnone : '\n' ∉ text := by simpa [hitem, Item.text] using hentry.line hcomment
    obtain ⟨-, -, cell, hcell, -⟩ := h.comment hentry text
    rw [style.writeEntry_aligned hitem hnone] at hsettles ⊢
    obtain ⟨column, hcolumn, -⟩ := hsettles _ cell hcell
    rw [hline] at hcolumn
    rw [style.writeEntry_aligned hitem hnone, style.writeComment_of_column ((hfinal _).trans hcolumn), hcolumn]
    refine ⟨rfl, hfinal, ?_, fun hnot => ?_⟩
    · rw [style.line_writeComment hnone, Page.line_write_of_notMem _ hnone, Page.line_pad, hline]
    · rw [hnot entry rfl] at hcomment
      cases hcomment
  | alone text =>
    have hcomment : entry.isComment = true := by rw [Entry.isComment, hitem]
    have hnone : '\n' ∉ text := by simpa [hitem, Item.text] using hentry.line hcomment
    rw [style.writeEntry_alone hitem hnone, style.writeEntry_alone hitem hnone]
    refine ⟨rfl, hfinal, ?_, fun _ => Page.lineLength_write_congr hlength _⟩
    rw [Page.line_write_of_notMem _ hnone, Page.line_write_of_notMem _ hnone, hline]
  | code text =>
    obtain ⟨hpage, hcolumns⟩ := style.writeEntry_code hitem a columns
    obtain ⟨hpage', hcolumns'⟩ := style.writeEntry_code hitem b final
    have hend : ((entry.gap.write style.level a).write text).line =
        ((entry.gap.write style.level b).write text).line := by
      change (entry.gap.write style.level a).line + _ = (entry.gap.write style.level b).line + _
      rw [hline]
    rw [hcolumns] at hsettles
    rw [hpage, hpage', hcolumns']
    refine ⟨rfl, fun line => ?_, hend, fun _ => Page.lineLength_write_congr hlength _⟩
    by_cases hbreaks : style.breaksAlignment = true ∧ '\n' ∈ text
    · rw [if_pos hbreaks] at hsettles ⊢
      obtain ⟨column, hcolumn, -, hzero⟩ := hsettles _ columns.cells.length
        (by rw [CommentColumns.cell?_fresh, if_pos rfl])
      rw [CommentColumns.column_fresh_self] at hzero
      rw [hzero (Nat.zero_le _), hend] at hcolumn
      rw [CommentColumns.column?_fresh_zero]
      split
      · next heq => rw [heq, hcolumn]
      · exact hfinal line
    · rw [if_neg hbreaks]
      exact hfinal line

/-- Once the columns are settled, a pass writes each entry in its place and changes no column. -/
lemma Measured.emit (h : Measured style previous a columns) (hentries : Follow previous entries)
    (hstep : InStep previous a b) (hsettles : Settles style.floor (style.pass entries a columns).2 column?)
    (hfinal : ∀ line, final.column? line = column? line) :
    (style.pass entries b final).1 = entries.foldl (style.place column?) b ∧
      (∀ line, (style.pass entries b final).2.column? line = column? line) ∧
      InStep (lastEntry previous entries) (style.pass entries a columns).1 (style.pass entries b final).1 := by
  induction entries generalizing previous a b columns final with
  | nil => exact ⟨rfl, hfinal, hstep⟩
  | cons entry entries ih =>
    obtain ⟨hmeasured, -⟩ := h.step hentries.1
    obtain ⟨-, hwidens⟩ := hmeasured.run hentries.2
    have hentry := hsettles.of_widens hwidens fun line cell hcell => (hmeasured.range line cell hcell).2
    obtain ⟨hpage, hcolumns, hnext⟩ := h.emit_step hentries.1 hstep hentry hfinal
    obtain ⟨hrest, hlast, hend⟩ := ih hmeasured hentries.2 hnext hsettles hcolumns
    refine ⟨?_, hlast, hend⟩
    rw [List.foldl_cons, ← hpage]
    exact hrest

end Emitting

section Neighbours

variable {style : ListStyle} {previous : Option Entry} {before middle after entries : List Entry}
  {gap gap' : Gap} {text text' : Text}

lemma pass_cons (style : ListStyle) (entry : Entry) (entries : List Entry) (page : Page)
    (columns : CommentColumns) :
    style.pass (entry :: entries) page columns =
      style.pass entries (style.writeEntry entry page columns).1 (style.writeEntry entry page columns).2 := rfl

lemma pass_append (style : ListStyle) (front rest : List Entry) (page : Page) (columns : CommentColumns) :
    style.pass (front ++ rest) page columns =
      style.pass rest (style.pass front page columns).1 (style.pass front page columns).2 := by
  induction front generalizing page columns with
  | nil => rfl
  | cons entry front ih => exact ih _ _

lemma follow_append : Follow previous (before ++ after) ↔
    Follow previous before ∧ Follow (lastEntry previous before) after := by
  induction before generalizing previous with
  | nil => exact iff_of_eq (true_and _).symm
  | cons entry before ih =>
    rw [List.cons_append, Follow, Follow, ih, and_assoc]
    rfl

lemma lastEntry_none (entries : List Entry) : lastEntry none entries = entries.getLast? := by
  rcases List.eq_nil_or_concat entries with rfl | ⟨front, last, rfl⟩
  · rfl
  · rw [lastEntry, List.concat_eq_append, List.foldl_append, List.getLast?_append]
    rfl

/-- The page in front of a comment that a pass writes behind other entries. -/
def ListStyle.front (style : ListStyle) (before : List Entry) (gap : Gap) (page : Page)
    (columns : CommentColumns) : Page :=
  let start := gap.write style.level (style.pass before page columns).1
  match (style.pass before page columns).2.column? start.line with
  | some column => start.pad (column - start.lineLength)
  | none => start

lemma ListStyle.pass_front (style : ListStyle) (h : '\n' ∉ text) (before : List Entry) (gap : Gap) (page : Page)
    (columns : CommentColumns) :
    (style.pass (before ++ [⟨gap, .aligned text⟩]) page columns).1 =
      (style.front before gap page columns).write text := by
  rw [pass_append, pass_cons, style.writeEntry_aligned rfl h, ListStyle.pass]
  unfold ListStyle.front ListStyle.writeComment CommentColumns.column?
  dsimp only
  cases (style.pass before page columns).2.cell?
      (gap.write style.level (style.pass before page columns).1).line with
  | none => rfl
  | some cell => rfl

/-- The comment stands behind a member over several lines, on its last line. -/
def BehindBreak (style : ListStyle) (before : List Entry) (gap : Gap) : Prop :=
  gap = .sameLine ∧ ∃ other, before.getLast? = some other ∧ Breaks style other

lemma Measured.comment_place {a b : Page} {columns final : CommentColumns}
    (h : Measured style previous a columns) (hcomment : Entry.Follows ⟨gap, .aligned text⟩ previous)
    (hstep : InStep previous a b)
    (hwidens : Widens style.floor (style.writeEntry ⟨gap, .aligned text⟩ a columns).2 final) :
    ∃ cell,
      (style.writeEntry ⟨gap, .aligned text⟩ a columns).2.cell? (gap.write style.level b).line = some cell ∧
      final.cell? (gap.write style.level b).line = some cell ∧
      ((gap.write style.level b).lineLength ≤ final.column cell ∨
        (gap = .sameLine ∧ (∃ other, previous = some other ∧ Breaks style other) ∧
          columns.cell? ((gap.write style.level b).line - 1) = none)) := by
  have hnone : '\n' ∉ text := by simpa [Item.text] using hcomment.line rfl
  obtain ⟨hline, hlength⟩ := hstep.gap hcomment style.level
  obtain ⟨hconsistent, -, cell, hcell, hfits⟩ := h.comment hcomment text
  rw [style.writeEntry_aligned rfl hnone] at hwidens ⊢
  rw [← hline, ← hlength]
  refine ⟨cell, hcell, hwidens.cells _ cell hcell, hfits.imp_left fun hle => ?_⟩
  exact hle.trans (hwidens.columns cell (hconsistent.range _ cell hcell).2).1

/-- Where a comment stands: in the column of its cell, unless it is behind a member over several lines,
and then the line above has no comment. -/
lemma front_cell (style : ListStyle) (h : Follow none (before ++ ⟨gap, .aligned text⟩ :: after))
    (page : Page) :
    let measured := (style.pass (before ++ ⟨gap, .aligned text⟩ :: after) page.fork .empty).2
    let front := style.front before gap page measured
    ∃ cell,
      (style.pass (before ++ [⟨gap, .aligned text⟩]) page.fork .empty).2.cell? front.line = some cell ∧
      measured.cell? front.line = some cell ∧
      (front.lineLength = measured.column cell ∨ (BehindBreak style before gap ∧
        (style.pass before page.fork .empty).2.cell? (front.line - 1) = none)) := by
  intro measured front
  obtain ⟨hbefore, hcomment, hafter⟩ := follow_append.1 h
  obtain ⟨hmeasured, -⟩ := (measured_empty style page.fork).run hbefore
  obtain ⟨hnext, hwidens⟩ := hmeasured.step hcomment
  have hlast := (hnext.run hafter).2
  have hall := congrArg Prod.snd (pass_append style before (⟨gap, .aligned text⟩ :: after) page.fork .empty)
  have hone := congrArg Prod.snd (pass_append style before [⟨gap, .aligned text⟩] page.fork .empty)
  rw [pass_cons] at hall hone
  rw [← hall] at hlast
  change Widens style.floor _ measured at hlast
  have hsettles : Settles style.floor (style.pass before page.fork .empty).2 measured.column? :=
    (settles_column? _ measured).of_widens (hwidens.trans hlast) fun line cell hcell =>
      (hmeasured.range line cell hcell).2
  have hfork : InStep none page.fork page := ⟨rfl, fun _ => page.lineLength_fork⟩
  obtain ⟨-, hcolumns, hstep⟩ :=
    (measured_empty style page.fork).emit hbefore hfork hsettles fun line => rfl
  obtain ⟨cell, hfirst, hfinal, hplace⟩ := hmeasured.comment_place hcomment hstep hlast
  have hcolumn : measured.column? (gap.write style.level (style.pass before page measured).1).line =
      some (measured.column cell) := by
    rw [CommentColumns.column?, hfinal]
    rfl
  have hfront : front = (gap.write style.level (style.pass before page measured).1).pad
      (measured.column cell - (gap.write style.level (style.pass before page measured).1).lineLength) := by
    change style.front before gap page measured = _
    unfold ListStyle.front
    dsimp only
    rw [hcolumns, hcolumn]
  rw [hfront, Page.line_pad, Page.lineLength_pad, hone, ListStyle.pass]
  refine ⟨cell, hfirst, hfinal, hplace.imp (fun hle => by omega) ?_⟩
  rintro ⟨hgap, hbreaks, hnone⟩
  rw [lastEntry_none] at hbreaks
  exact ⟨⟨hgap, hbreaks⟩, hnone⟩

/-- Comments on neighbouring lines start in the same column, unless the upper one starts no further right
than the floor, or stands behind a member over several lines. -/
lemma neighbours (style : ListStyle) (h : Follow none entries) (page : Page)
    (hsplit : entries = before ++ ⟨gap, .aligned text⟩ :: (middle ++ ⟨gap', .aligned text'⟩ :: after)) :
    let measured := (style.pass entries page.fork .empty).2
    let upper := style.front before gap page measured
    let lower := style.front (before ++ ⟨gap, .aligned text⟩ :: middle) gap' page measured
    lower.line = upper.line + 1 → lower.lineLength = upper.lineLength ∨ upper.lineLength ≤ style.floor ∨
      BehindBreak style before gap := by
  intro measured upper lower hadjacent
  have hsplit' : entries =
      (before ++ ⟨gap, .aligned text⟩ :: middle) ++ ⟨gap', .aligned text'⟩ :: after := by
    rw [hsplit, List.append_assoc, List.cons_append]
  have hwhole : Measured style _ _ measured := ((measured_empty style page.fork).run h).1
  have hupper := front_cell style (hsplit ▸ h) page
  have hlower := front_cell style (hsplit' ▸ h) page
  rw [← hsplit] at hupper
  rw [← hsplit'] at hlower
  obtain ⟨cell, hfirst, hcell, hplace⟩ := hupper
  obtain ⟨cell', -, hcell', hplace'⟩ := hlower
  obtain hplace | hbreak := hplace
  · have hshared := hwhole.shared upper.line cell cell' hcell (by rw [← hadjacent]; exact hcell')
    obtain rfl | hfloor := hshared
    · obtain hplace' | ⟨-, hnone⟩ := hplace'
      · exact .inl (hplace'.trans hplace.symm)
      · -- The line above the last line of a member over several lines has no comment.
        have hlist : before ++ ⟨gap, .aligned text⟩ :: middle =
            (before ++ [⟨gap, .aligned text⟩]) ++ middle := by
          rw [List.append_assoc, List.singleton_append]
        have hfollow := (follow_append.1 (hsplit' ▸ h)).1
        rw [hlist] at hfollow
        obtain ⟨hbefore, hmiddle⟩ := follow_append.1 hfollow
        have hwidens := (((measured_empty style page.fork).run hbefore).1.run hmiddle).2
        have hkept := hwidens.cells upper.line cell hfirst
        have habove : (style.pass (before ++ ⟨gap, .aligned text⟩ :: middle) page.fork .empty).2.cell?
            upper.line = none := by
          rw [← Int.add_sub_cancel upper.line 1, ← hadjacent]
          exact hnone
        rw [hlist, pass_append, hkept] at habove
        cases habove
    · exact .inr (.inl (hplace ▸ hfloor))
  · exact .inr (.inr hbreak.1)

end Neighbours

end DpLang
