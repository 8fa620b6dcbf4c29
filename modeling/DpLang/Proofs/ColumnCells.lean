import DpLang.Proofs.Grouping
import DpLang.Proofs.SpellingRow
import Mathlib.Order.Bounds.Basic

/-!
# Cells of aligned columns

Each cell is as wide as the longest value in it, with one blank more. A row has the cells of the row
above it, apart from the last one, if both are neighbours: only comments on the line of the upper row
stand between them, there is no blank line, and the upper row is written on one line. All its other
cells are new. So columns with the same cells in front of them start at the same place.
-/

namespace DpLang

section Widths

/-- Cells are known by their numbers, and each is one wider than the longest of the values placed in it. -/
structure Columns.Filled (placed : List (Nat × Text)) (widths : List Nat) : Prop where
  known : ∀ cell value, (cell, value) ∈ placed → cell < widths.length
  longest : ∀ cell < widths.length,
    IsGreatest {width | ∃ value, (cell, value) ∈ placed ∧ width = value.length + 1} (widths.getD cell 0)

variable {placed : List (Nat × Text)} {widths above : List Nat} {cell : Nat} {value : Text} {values : List Text}

lemma Columns.filled_nil : Columns.Filled [] [] :=
  ⟨fun _ _ h => absurd h List.not_mem_nil, fun _ h => absurd h (Nat.not_lt_zero _)⟩

lemma Columns.Filled.snoc (h : Filled placed widths) {after : List Nat} (hlength : widths.length ≤ after.length)
    (hcell : cell < after.length) (hothers : ∀ other < after.length, other ≠ cell →
      other < widths.length ∧ after.getD other 0 = widths.getD other 0)
    (hwidth : after.getD cell 0 = max (value.length + 1) (widths.getD cell 0)) :
    Filled (placed ++ [(cell, value)]) after where
  known other text hmem := by
    rcases List.mem_append.1 hmem with hold | hnew
    · exact (h.known other text hold).trans_le hlength
    · obtain ⟨rfl, -⟩ := Prod.mk.inj (List.mem_singleton.1 hnew)
      exact hcell
  longest other hother := by
    by_cases heq : other = cell
    · subst heq
      rw [hwidth]
      constructor
      · rcases Nat.le_total (value.length + 1) (widths.getD other 0) with hle | hle
        · have hlt : other < widths.length := by
            by_contra hge
            rw [List.getD_eq_default _ _ (Nat.not_lt.1 hge)] at hle
            omega
          obtain ⟨text, htext, hlongest⟩ := (h.longest other hlt).1
          exact ⟨text, List.mem_append_left _ htext, by rw [Nat.max_eq_right hle, hlongest]⟩
        · exact ⟨value, by simp, by rw [Nat.max_eq_left hle]⟩
      · rintro width ⟨longer, hlonger, rfl⟩
        rcases List.mem_append.1 hlonger with hold | hlast
        · exact ((h.longest other (h.known _ _ hold)).2 ⟨longer, hold, rfl⟩).trans (Nat.le_max_right _ _)
        · obtain ⟨-, rfl⟩ := Prod.mk.inj (List.mem_singleton.1 hlast)
          exact Nat.le_max_left _ _
    · obtain ⟨hlt, hsame⟩ := hothers other hother heq
      obtain ⟨⟨text, htext, hlongest⟩, hmax⟩ := h.longest other hlt
      rw [hsame]
      refine ⟨⟨text, List.mem_append_left _ htext, hlongest⟩, ?_⟩
      rintro width ⟨longer, hlonger, rfl⟩
      rcases List.mem_append.1 hlonger with hold | hlast
      · exact hmax ⟨longer, hold, rfl⟩
      · exact absurd (Prod.mk.inj (List.mem_singleton.1 hlast)).1 heq

lemma Columns.Filled.modify (h : Filled placed widths) (hcell : cell < widths.length) (value : Text) :
    Filled (placed ++ [(cell, value)]) (widths.modify cell (max (value.length + 1))) := by
  apply h.snoc
  · rw [List.length_modify]
  · rwa [List.length_modify]
  · intro other hother hne
    rw [List.length_modify] at hother
    exact ⟨hother, by simp [List.getD, Ne.symm hne]⟩
  · simp [List.getD, hcell]

lemma Columns.Filled.fresh (h : Filled placed widths) (value : Text) :
    Filled (placed ++ [(widths.length, value)]) (widths ++ [value.length + 1]) := by
  apply h.snoc
  · simp
  · simp
  · intro other hother hne
    rw [List.length_append, List.length_singleton] at hother
    have hlt : other < widths.length := by omega
    exact ⟨hlt, by simp [List.getD, List.getElem?_append_left hlt]⟩
  · simp [List.getD]

lemma Columns.Filled.place (h : Filled placed widths) (habove : ∀ cell ∈ above, cell < widths.length) :
    Filled (placed ++ (Columns.place above values widths).1.zip values)
      (Columns.place above values widths).2 := by
  induction values generalizing placed above widths with
  | nil =>
    rw [Columns.place, List.zip_nil_right, List.append_nil]
    exact h
  | cons value values ih =>
    have hfresh : Filled (placed ++ [(widths.length, value)] ++
        (Columns.place [] values (widths ++ [value.length + 1])).1.zip values) _ :=
      ih (h.fresh value) (by simp)
    rw [List.append_assoc, List.singleton_append] at hfresh
    rcases above with _ | ⟨cell, _ | ⟨next, above⟩⟩
    · simpa [Columns.place] using hfresh
    · simpa [Columns.place] using hfresh
    · obtain ⟨hcell, hrest⟩ := List.forall_mem_cons.1 habove
      have hshared : Filled (placed ++ [(cell, value)] ++ (Columns.place (next :: above) values
          (widths.modify cell (max (value.length + 1)))).1.zip values) _ :=
        ih (h.modify hcell value) (by simpa using hrest)
      rw [List.append_assoc, List.singleton_append] at hshared
      simpa [Columns.place] using hshared

end Widths

section Rows

variable {above widths : List Nat} {values : List Text} {i cell : Nat}

/-- The cells of a row: those of the row above in front of its last one, and then new ones. -/
lemma place_eq (above : List Nat) (values : List Text) (widths : List Nat) :
    (Columns.place above values widths).1 = above.take (min (above.length - 1) values.length) ++
      List.range' widths.length (values.length - (above.length - 1)) := by
  induction values generalizing above widths with
  | nil => simp [Columns.place]
  | cons value values ih =>
    rcases above with _ | ⟨first, _ | ⟨next, above⟩⟩
    · simp [Columns.place, ih, List.range'_succ]
    · simp [Columns.place, ih, List.range'_succ]
    · simp [Columns.place, ih]

lemma place_shared (hi : i + 1 < above.length) (hvalues : i < values.length) :
    (Columns.place above values widths).1[i]? = above[i]? := by
  rw [place_eq, List.getElem?_append_left (by rw [List.length_take]; omega), List.getElem?_take_of_lt (by omega)]

lemma shared_of_place (h : (Columns.place above values widths).1[i]? = some cell) (hold : cell < widths.length) :
    i + 1 < above.length ∧ above[i]? = some cell := by
  rw [place_eq] at h
  by_cases hi : i < (above.take (min (above.length - 1) values.length)).length
  · rw [List.getElem?_append_left hi] at h
    rw [List.length_take] at hi
    rw [List.getElem?_take_of_lt (by omega)] at h
    exact ⟨by omega, h⟩
  · rw [List.getElem?_append_right (Nat.not_lt.1 hi)] at h
    have hle := (List.mem_range'_1.1 (List.mem_of_getElem? h)).1
    omega

lemma place_nodup (habove : above.Nodup) (hknown : ∀ cell ∈ above, cell < widths.length) :
    (Columns.place above values widths).1.Nodup := by
  rw [place_eq]
  refine List.nodup_append.2 ⟨habove.sublist (List.take_sublist _ _), List.nodup_range', ?_⟩
  rintro cell hcell other hother rfl
  have hle := (List.mem_range'_1.1 hother).1
  have hlt := hknown cell (List.mem_of_mem_take hcell)
  omega

end Rows

section Tables

/-- The second node is a comment on the line of the first one. -/
def Node.HasBehind (node comment : Node) : Prop := comment.isComment = true ∧ node.linesTo comment = 0

namespace Columns

/-- The values in cells. -/
def placements (columns : Node → List Text) (table : List (Node × Option (List Nat))) : List (Nat × Text) :=
  table.flatMap fun entry => (entry.2.getD []).zip (columns entry.1)

/-- Two nodes with only comments on the line of the upper one between them. -/
structure Neighbours (upper : Node) (between : List Node) (lower : Node) : Prop where
  comments : (upper :: between).IsChain Node.HasBehind
  oneLine : upper.onOneLine = true
  near : ∀ last ∈ (upper :: between).getLast?, last.linesTo lower ≤ 1

/-- The cells of a node that stands behind others. -/
structure RowShares (columns : Node → List Text) (before : List (Node × Option (List Nat))) (lower : Node)
    (row : List Nat) : Prop where
  nonempty : row ≠ []
  length : row.length = (columns lower).length
  nodup : row.Nodup
  /-- All cells but the last one of the neighbour above are shared. -/
  shared : ∀ front upper cells between, before = front ++ (upper, some cells) :: between →
    Neighbours upper (between.map Prod.fst) lower →
      ∀ i, i + 1 < cells.length → i < row.length → row[i]? = cells[i]?
  /-- A cell that is in use is shared with the neighbour above. -/
  fresh : ∀ i cell, row[i]? = some cell → (∃ entry ∈ before, cell ∈ entry.2.getD []) →
    ∃ front upper cells between, before = front ++ (upper, some cells) :: between ∧
      Neighbours upper (between.map Prod.fst) lower ∧ i + 1 < cells.length ∧ cells[i]? = some cell

/-- A node has no row if it has no columns or is a comment behind the node before it. -/
def EntryFits (columns : Node → List Text) (before : List (Node × Option (List Nat))) (node : Node) :
    Option (List Nat) → Prop
  | none => columns node = [] ∨ ∃ last ∈ before.getLast?, last.1.HasBehind node
  | some row => (¬ ∃ last ∈ before.getLast?, last.1.HasBehind node) ∧ RowShares columns before node row

/-- What holds while the cells of a list are found, behind a part of the list: `above` is the row of the
next node's neighbour, if it has one. -/
structure Stands (columns : Node → List Text) (before : List (Node × Option (List Nat)))
    (previous : Option Int) (above widths : List Nat) : Prop where
  previous : previous = before.getLast?.map fun entry => entry.1.stop.line
  filled : Filled (placements columns before) widths
  known : ∀ entry ∈ before, ∀ cell ∈ entry.2.getD [], cell < widths.length
  nodup : above.Nodup
  isAbove : ∀ front upper cells between, before = front ++ (upper, some cells) :: between →
    (upper :: between.map Prod.fst).IsChain Node.HasBehind → upper.onOneLine = true → above = cells
  comesFrom : above ≠ [] → ∃ front upper between, before = front ++ (upper, some above) :: between ∧
    (upper :: between.map Prod.fst).IsChain Node.HasBehind ∧ upper.onOneLine = true

end Columns

open Columns

variable {columns : Node → List Text} {before front between : List (Node × Option (List Nat))}
  {previous : Option Int} {above widths cells : List Nat} {node upper : Node} {row : Option (List Nat)}

lemma stands_nil (columns : Node → List Text) : Stands columns [] none [] [] where
  previous := rfl
  filled := filled_nil
  known := by simp
  nodup := List.nodup_nil
  isAbove := by simp
  comesFrom h := absurd rfl h

lemma Columns.Stands.hasBehind_iff (h : Stands columns before previous above widths) :
    (previous.map (node.start.line - ·) == some 0 && node.isComment) = true ↔
      ∃ last ∈ before.getLast?, last.1.HasBehind node := by
  rw [h.previous, Bool.and_eq_true, beq_iff_eq]
  cases before.getLast? with
  | none => simp
  | some last => simp [Node.HasBehind, Node.linesTo, and_comm]

lemma placements_append (table more : List (Node × Option (List Nat))) :
    placements columns (table ++ more) = placements columns table ++ placements columns more :=
  List.flatMap_append

lemma placements_singleton (node : Node) (row : Option (List Nat)) :
    placements columns [(node, row)] = (row.getD []).zip (columns node) := by
  rw [placements, List.flatMap_singleton]

lemma split_snoc (h : before ++ [(node, row)] = front ++ (upper, some cells) :: between) :
    (between = [] ∧ before = front ∧ node = upper ∧ row = some cells) ∨
      ∃ rest, between = rest ++ [(node, row)] ∧ before = front ++ (upper, some cells) :: rest := by
  rcases List.eq_nil_or_concat between with rfl | ⟨rest, last, rfl⟩
  · have hlast := List.append_inj' h rfl
    obtain ⟨hnode, hrow⟩ := Prod.mk.inj (List.cons.inj hlast.2).1
    exact .inl ⟨rfl, hlast.1, hnode, hrow⟩
  · rw [List.concat_eq_append, ← List.cons_append, ← List.append_assoc] at h
    obtain ⟨hbefore, hlast⟩ := List.append_inj' h rfl
    refine .inr ⟨rest, ?_, hbefore⟩
    rw [List.concat_eq_append, ← hlast]

lemma getLast?_split (h : before = front ++ (upper, some cells) :: between) :
    (upper :: between.map Prod.fst).getLast? = before.getLast?.map Prod.fst := by
  change (((upper, some cells) :: between).map Prod.fst).getLast? = _
  rw [h, List.getLast?_append, List.getLast?_map, List.getLast?_eq_some_getLast (List.cons_ne_nil _ _)]
  rfl

lemma hasBehind_of_chain {rest : List (Node × Option (List Nat))}
    (h : (upper :: (rest ++ [(node, row)]).map Prod.fst).IsChain Node.HasBehind)
    (hbefore : before = front ++ (upper, some cells) :: rest) :
    ∃ last ∈ before.getLast?, last.1.HasBehind node := by
  rw [List.map_append, List.map_singleton, ← List.cons_append, List.isChain_append, getLast?_split hbefore] at h
  cases hlast : before.getLast? with
  | none => simp [hbefore] at hlast
  | some last => exact ⟨last, rfl, h.2.2 last.1 (by rw [hlast]; rfl) node rfl⟩

lemma Columns.Stands.comment (h : Stands columns before previous above widths)
    (hbehind : ∃ last ∈ before.getLast?, last.1.HasBehind node) :
    Stands columns (before ++ [(node, none)]) (some node.stop.line) above widths where
  previous := by simp
  filled := by
    rw [placements_append, placements_singleton]
    simpa using h.filled
  known := by
    intro entry hentry
    rcases List.mem_append.1 hentry with hold | hnew
    · exact h.known entry hold
    · rw [List.mem_singleton.1 hnew]
      simp
  nodup := h.nodup
  isAbove := by
    intro front upper cells between hsplit hchain hone
    obtain ⟨-, -, -, hrow⟩ | ⟨rest, rfl, hbefore⟩ := split_snoc hsplit
    · cases hrow
    · rw [List.map_append, ← List.cons_append, List.isChain_append] at hchain
      exact h.isAbove front upper cells rest hbefore hchain.1 hone
  comesFrom := by
    intro hne
    obtain ⟨front, upper, between, rfl, hchain, hone⟩ := h.comesFrom hne
    refine ⟨front, upper, between ++ [(node, none)], by simp, ?_, hone⟩
    rw [List.map_append, ← List.cons_append, List.isChain_append, getLast?_split rfl]
    refine ⟨hchain, List.isChain_singleton _, fun last hlast next hnext => ?_⟩
    obtain ⟨entry, hentry, hnode⟩ := hbehind
    obtain rfl : node = next := Option.some.inj hnext
    rw [Option.mem_def.1 hentry] at hlast
    obtain rfl : entry.1 = last := Option.some.inj hlast
    exact hnode

/-- Behind a node that is no comment behind the previous one, the only neighbour can be this node. -/
lemma Columns.Stands.apart (h : Stands columns before previous above widths)
    (hbehind : ¬ ∃ last ∈ before.getLast?, last.1.HasBehind node) {next after : List Nat}
    (hfilled : Filled (placements columns (before ++ [(node, row)])) after)
    (hlength : widths.length ≤ after.length) (hknown : ∀ cell ∈ row.getD [], cell < after.length)
    (hnodup : next.Nodup) (hnext : ∀ cells, row = some cells → node.onOneLine = true → next = cells)
    (hfrom : next ≠ [] → row = some next ∧ node.onOneLine = true) :
    Stands columns (before ++ [(node, row)]) (some node.stop.line) next after where
  previous := by simp
  filled := hfilled
  known := by
    intro entry hentry
    rcases List.mem_append.1 hentry with hold | hnew
    · exact fun cell hcell => (h.known entry hold cell hcell).trans_le hlength
    · rw [List.mem_singleton.1 hnew]
      exact hknown
  nodup := hnodup
  isAbove := by
    intro front upper cells between hsplit hchain hone
    obtain ⟨-, -, rfl, hrow⟩ | ⟨rest, rfl, hbefore⟩ := split_snoc hsplit
    · exact hnext cells hrow hone
    · exact absurd (hasBehind_of_chain hchain hbefore) hbehind
  comesFrom := by
    intro hne
    obtain ⟨hrow, hone⟩ := hfrom hne
    exact ⟨before, node, [], by rw [hrow], List.isChain_singleton _, hone⟩

/-- The row above, as far as it is used. -/
def Columns.usable (previous : Option Int) (above : List Nat) (node : Node) : List Nat :=
  if (previous.map (node.start.line - ·)).any (1 < ·) then [] else above

lemma Columns.Stands.usable_known (h : Stands columns before previous above widths) (node : Node) :
    ∀ cell ∈ usable previous above node, cell < widths.length := by
  intro cell hcell
  unfold usable at hcell
  split at hcell
  · cases hcell
  · obtain ⟨front, upper, between, rfl, -, -⟩ := h.comesFrom (List.ne_nil_of_mem hcell)
    exact h.known (upper, some above) (by simp) cell hcell

lemma Columns.Stands.rowShares (h : Stands columns before previous above widths) (hcolumns : columns node ≠ []) :
    RowShares columns before node (place (usable previous above node) (columns node) widths).1 := by
  have hnodup : (usable previous above node).Nodup := by
    unfold usable
    split
    · exact List.nodup_nil
    · exact h.nodup
  -- The line of the previous node is that of the last comment behind the neighbour.
  have hnear {front between : List (Node × Option (List Nat))} {upper : Node} {cells : List Nat}
      (hsplit : before = front ++ (upper, some cells) :: between) :
      (previous.map (node.start.line - ·)).any (1 < ·) = true ↔
        ¬ ∀ last ∈ (upper :: between.map Prod.fst).getLast?, last.linesTo node ≤ 1 := by
    rw [h.previous, getLast?_split hsplit]
    cases before.getLast? with
    | none => simp
    | some last =>
      simp only [Option.map_some, Option.any_some, decide_eq_true_eq, Option.mem_some_iff, forall_eq',
        Node.linesTo, not_le]
  constructor
  case nonempty =>
    rw [← List.length_pos_iff, place_length, List.length_pos_iff]
    exact hcolumns
  case length => exact place_length _ _ _
  case nodup => exact place_nodup hnodup (h.usable_known node)
  case shared =>
    intro front upper cells between hsplit hneighbours i hi hrow
    have habove := h.isAbove front upper cells between hsplit hneighbours.comments hneighbours.oneLine
    have husable : usable previous above node = cells := by
      rw [usable, if_neg fun hfar => (hnear hsplit).1 hfar hneighbours.near, habove]
    rw [place_length] at hrow
    rw [husable]
    exact place_shared hi hrow
  case fresh =>
    rintro i cell hcell ⟨entry, hentry, hmem⟩
    obtain ⟨hi, hcell⟩ := shared_of_place hcell (h.known entry hentry cell hmem)
    unfold usable at hi hcell
    split at hi
    · simp at hi
    · next hclose =>
      rw [if_neg hclose] at hcell
      have hne : above ≠ [] := List.ne_nil_of_length_pos (by omega)
      obtain ⟨front, upper, between, hsplit, hchain, hone⟩ := h.comesFrom hne
      refine ⟨front, upper, above, between, hsplit, ⟨hchain, hone, ?_⟩, hi, hcell⟩
      by_contra hfar
      exact hclose ((hnear hsplit).2 hfar)

/-- What one node does: it gets an entry that fits, and the cells of the rest are found behind it. -/
lemma Columns.Stands.step (h : Stands columns before previous above widths) (node : Node) (nodes : List Node) :
    ∃ row next after, Stands columns (before ++ [(node, row)]) (some node.stop.line) next after ∧
      EntryFits columns before node row ∧
      Columns.cells columns previous above widths (node :: nodes) =
        (row :: (Columns.cells columns (some node.stop.line) next after nodes).1,
          (Columns.cells columns (some node.stop.line) next after nodes).2) := by
  by_cases hbehind : ∃ last ∈ before.getLast?, last.1.HasBehind node
  · refine ⟨none, above, widths, h.comment hbehind, .inr hbehind, ?_⟩
    rw [Columns.cells]
    dsimp only
    rw [if_pos (h.hasBehind_iff.2 hbehind)]
  · have hno := fun hboth => hbehind (h.hasBehind_iff.1 hboth)
    cases hcolumns : columns node with
    | nil =>
      refine ⟨none, [], widths, ?_, .inl hcolumns, ?_⟩
      · apply h.apart hbehind
        · rw [placements_append, placements_singleton]
          simpa using h.filled
        · exact Nat.le_refl _
        · simp
        · exact List.nodup_nil
        · intro cells hnone
          cases hnone
        · exact fun hne => absurd rfl hne
      · rw [Columns.cells]
        dsimp only
        rw [if_neg hno, hcolumns]
    | cons value values =>
      have hne : columns node ≠ [] := by
        rw [hcolumns]
        exact List.cons_ne_nil _ _
      have hfits := h.rowShares hne
      have hfilled : Filled (placements columns (before ++
          [(node, some (place (usable previous above node) (columns node) widths).1)]))
          (place (usable previous above node) (columns node) widths).2 := by
        rw [placements_append, placements_singleton]
        exact h.filled.place (h.usable_known node)
      refine ⟨some (place (usable previous above node) (columns node) widths).1,
        if node.onOneLine then (place (usable previous above node) (columns node) widths).1 else [],
        (place (usable previous above node) (columns node) widths).2, ?_, ⟨hbehind, hfits⟩, ?_⟩
      · have hplaced := place_placed (columns node) (h.usable_known node)
        apply h.apart hbehind hfilled hplaced.grows.length hplaced.bound
        · split
          · exact hfits.nodup
          · exact List.nodup_nil
        · intro cells hcells hone
          rw [if_pos hone]
          exact Option.some.inj hcells
        · intro hnext
          by_cases hone : node.onOneLine = true
          · rw [if_pos hone]
            exact ⟨rfl, hone⟩
          · rw [if_neg hone] at hnext
            exact absurd rfl hnext
      · rw [Columns.cells]
        dsimp only
        rw [if_neg hno, hcolumns]
        rfl

/-- What a whole list does. -/
lemma Columns.Stands.run (h : Stands columns before previous above widths) (nodes : List Node) :
    let result := Columns.cells columns previous above widths nodes
    result.1.length = nodes.length ∧ Filled (placements columns (before ++ nodes.zip result.1)) result.2 ∧
      ∀ middle node row after, nodes.zip result.1 = middle ++ (node, row) :: after →
        EntryFits columns (before ++ middle) node row := by
  induction nodes generalizing before previous above widths with
  | nil =>
    dsimp only [Columns.cells]
    rw [List.zip_nil_left, List.append_nil]
    exact ⟨rfl, h.filled, by simp⟩
  | cons node nodes ih =>
    dsimp only
    obtain ⟨row, next, after, hstands, hfits, hcells⟩ := h.step node nodes
    obtain ⟨hlength, hfilled, hentries⟩ := ih hstands
    rw [hcells, List.zip_cons_cons]
    rw [List.append_assoc, List.singleton_append] at hfilled
    refine ⟨by simp [hlength], hfilled, fun middle other entry rest hsplit => ?_⟩
    cases middle with
    | nil =>
      obtain ⟨hhead, -⟩ := List.cons.inj hsplit
      obtain ⟨rfl, rfl⟩ := Prod.mk.inj hhead
      rw [List.append_nil]
      exact hfits
    | cons first middle =>
      obtain ⟨rfl, htail⟩ := List.cons.inj hsplit
      have hentry := hentries middle other entry rest htail
      rw [List.append_assoc, List.singleton_append] at hentry
      exact hentry

end Tables

section Writing

namespace Columns

/-- How wide cells are together. -/
def span (widths : List Nat) : List Nat → Nat
  | [] => 0
  | cell :: cells => widths.getD cell 0 + span widths cells

/-- In the text of a row, the value of column `i + 1` starts at an offset, with blanks between it and the
value of column `i`. -/
def StartsAt (values : List Text) (text : Text) (i offset : Nat) : Prop :=
  ∃ front value blanks next back, values[i]? = some value ∧ values[i + 1]? = some next ∧ 1 ≤ blanks ∧
    text = front ++ value ++ List.replicate blanks ' ' ++ next ++ back ∧
    front.length + value.length + blanks = offset

end Columns

variable {columns : Node → List Text} {values : List Text} {widths cells : List Nat}

lemma write_starts (hlength : cells.length = values.length)
    (hroom : ∀ entry ∈ cells.zip values, entry.2.length + 1 ≤ widths.getD entry.1 0) :
    ∃ text, (∀ page, Columns.write page values (cells.map (widths.getD · 0)) = .ok (page.write text)) ∧
      (∀ value ∈ values.head?, value <+: text) ∧
      ∀ i, i + 1 < cells.length → Columns.StartsAt values text i (Columns.span widths (cells.take (i + 1))) := by
  induction values generalizing cells with
  | nil => exact ⟨[], fun page => by rw [Columns.write, Page.write_nil], by simp, by simp [hlength]⟩
  | cons value values ih =>
    obtain ⟨cell, cells, rfl⟩ := List.exists_cons_of_length_eq_add_one hlength
    obtain ⟨hvalue, hroom⟩ := List.forall_mem_cons.1 hroom
    have hvalue : value.length + 1 ≤ widths.getD cell 0 := hvalue
    cases values with
    | nil =>
      obtain rfl : cells = [] := by simpa using hlength
      exact ⟨value, fun page => rfl, by simp, by simp⟩
    | cons next values =>
      obtain ⟨text, hwrite, hfront, hstarts⟩ := ih (by simpa using hlength) hroom
      have hpad : ((widths.getD cell 0 : Int) - value.length).toNat = widths.getD cell 0 - value.length := by
        omega
      refine ⟨value ++ List.replicate (widths.getD cell 0 - value.length) ' ' ++ text, fun page => ?_,
        by simp, fun i hi => ?_⟩
      · rw [List.map_cons, Columns.write, hwrite, Page.pad, hpad, Page.write_append, Page.write_append,
          List.append_assoc]
        simp
      · cases i with
        | zero =>
          obtain ⟨back, rfl⟩ := hfront next rfl
          refine ⟨[], value, widths.getD cell 0 - value.length, next, back, rfl, rfl, by omega, by simp, ?_⟩
          rw [List.take_succ_cons, List.take_zero, Columns.span, Columns.span, List.length_nil]
          omega
        | succ i =>
          obtain ⟨front, left, blanks, right, back, hleft, hright, hblanks, htext, hoffset⟩ :=
            hstarts i (by simpa using hi)
          refine ⟨value ++ List.replicate (widths.getD cell 0 - value.length) ' ' ++ front, left, blanks, right,
            back, hleft, hright, hblanks, by rw [htext]; simp, ?_⟩
          rw [List.take_succ_cons, Columns.span, ← hoffset, List.length_append, List.length_append,
            List.length_replicate]
          omega

lemma Columns.Filled.writes {table : List (Node × Option (List Nat))} {node : Node}
    (h : Filled (placements columns table) widths) (hmem : (node, some cells) ∈ table)
    (hlength : cells.length = (columns node).length) :
    ∃ text, (∀ page, Columns.write page (columns node) (cells.map (widths.getD · 0)) = .ok (page.write text)) ∧
      ∀ i, i + 1 < cells.length → StartsAt (columns node) text i (span widths (cells.take (i + 1))) := by
  have hroom : ∀ entry ∈ cells.zip (columns node), entry.2.length + 1 ≤ widths.getD entry.1 0 := by
    intro entry hentry
    have hplaced : (entry.1, entry.2) ∈ placements columns table :=
      List.mem_flatMap.2 ⟨(node, some cells), hmem, hentry⟩
    exact (h.longest entry.1 (h.known _ _ hplaced)).2 ⟨entry.2, hplaced, rfl⟩
  obtain ⟨text, hwrite, -, hstarts⟩ := write_starts hlength hroom
  exact ⟨text, hwrite, hstarts⟩

/-- The cells of a list of nodes, and how wide they become. -/
structure Columns.Aligned (columns : Node → List Text) (nodes : List Node) (rows : List (Option (List Nat)))
    (widths : List Nat) : Prop where
  count : rows.length = nodes.length
  used : Columns.widths columns nodes = rows.map fun row => row.map fun cells => cells.map (widths.getD · 0)
  /-- Each cell is one wider than the longest value in it. -/
  filled : Filled (placements columns (nodes.zip rows)) widths
  /-- Neighbours share cells, and no others do. -/
  entries : ∀ before node row after, nodes.zip rows = before ++ (node, row) :: after →
    EntryFits columns before node row
  /-- A column starts right behind the cells in front of it, with a blank at least before it. -/
  written : ∀ node cells, (node, some cells) ∈ nodes.zip rows → ∃ text,
    (∀ page, Columns.write page (columns node) (cells.map (widths.getD · 0)) = .ok (page.write text)) ∧
      ∀ i, i + 1 < cells.length → StartsAt (columns node) text i (span widths (cells.take (i + 1)))
  /-- Columns behind the same cells start at the same place. -/
  together : ∀ node cells other others i, (node, some cells) ∈ nodes.zip rows →
    (other, some others) ∈ nodes.zip rows → i + 1 < cells.length → i + 1 < others.length →
    cells.take (i + 1) = others.take (i + 1) → ∃ text text' offset,
      (∀ page, Columns.write page (columns node) (cells.map (widths.getD · 0)) = .ok (page.write text)) ∧
      (∀ page, Columns.write page (columns other) (others.map (widths.getD · 0)) = .ok (page.write text')) ∧
      StartsAt (columns node) text i offset ∧ StartsAt (columns other) text' i offset

/-- For all nodes and columns, the rows have the cells of their neighbours and no others, the cells are as
wide as the longest values in them, and the columns are aligned. -/
theorem cells_aligned (columns : Node → List Text) (nodes : List Node) :
    Columns.Aligned columns nodes (Columns.cells columns none [] [] nodes).1
      (Columns.cells columns none [] [] nodes).2 := by
  obtain ⟨hlength, hfilled, hentries⟩ := (stands_nil columns).run nodes
  rw [List.nil_append] at hfilled
  simp only [List.nil_append] at hentries
  have hcount : ∀ node cells, (node, some cells) ∈ nodes.zip (Columns.cells columns none [] [] nodes).1 →
      cells.length = (columns node).length := by
    intro node cells hmem
    obtain ⟨before, after, hsplit⟩ := List.append_of_mem hmem
    exact (hentries before node (some cells) after hsplit).2.length
  have hwritten := fun node cells hmem => hfilled.writes hmem (hcount node cells hmem)
  refine ⟨hlength, rfl, hfilled, hentries, hwritten, ?_⟩
  intro node cells other others i hmem hother hi hi' hsame
  obtain ⟨text, hwrite, hstarts⟩ := hwritten node cells hmem
  obtain ⟨text', hwrite', hstarts'⟩ := hwritten other others hother
  refine ⟨text, text', _, hwrite, hwrite', hstarts i hi, ?_⟩
  rw [hsame]
  exact hstarts' i hi'

end Writing

end DpLang
