import DpLang.Proofs.Spelling

/-!
# Types and rows that spell their plans

The texts of types, and rows of aligned columns. A column is as wide as the longest value in it and
one blank more, so the values of a row never run together.
-/

namespace DpLang

section Types

/-- The text ends like an operand and may stand behind blanks and behind each of the symbols. -/
def PartBehind (symbols : List Symbol) (text : Text) (pieces : List Piece) : Prop :=
  ∀ before : Option TokenKind, (∀ kind ∈ before, ∃ s ∈ symbols, kind = .symbol s) →
    IsPart before text pieces

variable {symbols : List Symbol} {text : Text} {pieces : List Piece}

lemma PartBehind.mark {s : Symbol} (h : PartBehind (s :: symbols) text pieces)
    (hjoin : ∀ other ∈ symbols, other.joins (s.spelling.headD ' ') = false) (marked : Bool) :
    PartBehind symbols ((if marked then s.spelling else []) ++ text)
      ((if marked then [symbolPiece s] else []) ++ pieces) := by
  intro before hbefore
  cases marked with
  | false =>
    refine h before fun kind hkind => ?_
    obtain ⟨other, hother, rfl⟩ := hbefore kind hkind
    exact ⟨other, List.mem_cons_of_mem _ hother, rfl⟩
  | true =>
    have hpart := h (some (.symbol s)) fun kind hkind =>
      ⟨s, List.mem_cons_self, (Option.some.inj hkind).symm⟩
    obtain ⟨kind, hkind, hspells⟩ := hpart.spells
    obtain ⟨c, t, hs, -⟩ := spelling_head s
    refine ⟨by simp [hpart.ne_nil], fun d hd => ?_, kind, hkind, ?_⟩
    · rintro before rfl rest
      obtain ⟨other, hother, rfl⟩ := hbefore before rfl
      have hfollows := follows_symbol (hjoin other hother)
      rw [hs] at hd hfollows
      obtain rfl := Option.some.inj hd
      exact (follows_some _).1 hfollows rest
    · exact (spells_symbol s).append hspells (fun hn => absurd hn hpart.ne_nil) hpart.follows

lemma PartBehind.free (h : PartBehind symbols text pieces) : IsPart none text pieces :=
  h none nofun

/-- The symbols that may stand right in front of a name in a type. -/
def typeMarks : List Symbol := [.hash, .ampersand, .asterisk, .assign, .parenLeft, .bracketLeft]

lemma typeMarks_opens {before : Option TokenKind}
    (h : ∀ kind ∈ before, ∃ s ∈ typeMarks, kind = .symbol s) : Opens before := fun kind hkind => by
  obtain ⟨s, -, hs⟩ := h kind hkind
  exact ⟨s, hs⟩

lemma colonWords_isPart {before : Option TokenKind} (ho : Opens before) {words : List Text}
    (h : AreNames words) : IsPart before (Text.join "::" words) (joinedWords .colons words) := by
  obtain ⟨hne, hall⟩ := h
  cases words with
  | nil => exact absurd rfl hne
  | cons word words =>
    rw [List.forall_mem_cons] at hall
    have hparts : ∀ part ∈ words.map fun w => (w, [wordPiece w]),
        IsPart (some (.symbol .colons)) part.1 part.2 := by
      intro part hpart
      obtain ⟨w, hw, rfl⟩ := List.mem_map.1 hpart
      exact isPart_word (opens_symbol _) (hall.2 w hw)
    have hjoin := isPart_join (spells_symbol .colons) (spelling_head .colons) (word, [wordPiece word])
      (isPart_word ho hall.1) hparts
    simpa [joinedWords, Function.comp_def, Symbol.spelling] using hjoin

lemma QualifiedName.pieces_of_names {words : List Text} (h : AreNames words) :
    QualifiedName.pieces words = joinedWords .colons words := by
  cases words with
  | nil => exact absurd rfl h.1
  | cons word words =>
    cases word with
    | nil => exact absurd rfl (h.2 [] List.mem_cons_self).ne_nil
    | cons c word => rfl

lemma QualifiedName.text_part {name : QualifiedName} (h : IsQualifiedName name) :
    PartBehind typeMarks name.text name.pieces := by
  intro before hbefore
  obtain ⟨words, hwords, rfl | rfl⟩ := h
  · rw [QualifiedName.pieces_of_names hwords]
    exact colonWords_isPart (typeMarks_opens hbefore) hwords
  · have hrest := colonWords_isPart (opens_symbol .colons) hwords
    obtain ⟨kind, hkind, hspells⟩ := hrest.spells
    have htext : QualifiedName.text ([] :: words) = Symbol.colons.spelling ++ Text.join "::" words := by
      obtain ⟨word, rest, rfl⟩ := List.exists_cons_of_ne_nil hwords.1
      rw [QualifiedName.text, join_cons_cons]
      rfl
    rw [htext]
    refine ⟨fun hn => hrest.ne_nil (List.append_eq_nil_iff.1 hn).2, fun c hc => ?_, kind, hkind, ?_⟩
    · obtain rfl := Option.some.inj hc
      rintro before rfl rest
      obtain ⟨s, hs, rfl⟩ := hbefore before rfl
      have hjoins : s.joins ':' = false := by
        revert s
        decide
      exact (follows_some _).1 (follows_symbol hjoins) rest
    · exact (spells_symbol .colons).append hspells (fun hn => absurd hn hrest.ne_nil) hrest.follows

lemma TypeFlags.text_part (flags : TypeFlags) (h : PartBehind typeMarks text pieces) :
    PartBehind [.parenLeft, .bracketLeft] (flags.text ++ text) (flags.pieces ++ pieces) := by
  have hshared := PartBehind.mark h (by decide) flags.shared
  have hreference := PartBehind.mark hshared (by decide) flags.reference
  have hpointer := PartBehind.mark hreference (by decide) flags.pointer
  have hassigner := PartBehind.mark hpointer (by decide) flags.assigner
  simp only [TypeFlags.text, TypeFlags.pieces, List.append_assoc]
  exact hassigner

lemma TypeExpr.text_part {type : TypeExpr} (h : type.WF) :
    PartBehind [.parenLeft, .bracketLeft] type.text type.pieces := by
  induction type with
  | named flags name => exact flags.text_part (QualifiedName.text_part h)
  | array flags item ih =>
    have hitem := ih h (some (.symbol .bracketLeft)) fun kind hkind =>
      ⟨.bracketLeft, by decide, (Option.some.inj hkind).symm⟩
    obtain ⟨kind, hkind, hspells⟩ := hitem.spells
    have harray : PartBehind typeMarks ('[' :: item.text ++ [']'])
        (symbolPiece .bracketLeft :: item.pieces ++ [symbolPiece .bracketRight]) := by
      intro before hbefore
      refine ⟨by simp, fun c hc => ?_, .symbol .bracketRight, rfl, ?_⟩
      · obtain rfl := Option.some.inj hc
        exact follows_opens (typeMarks_opens hbefore) (by decide) (by decide) (by decide)
      · have hopen := (spells_symbol .bracketLeft).append hspells (fun hn => absurd hn hitem.ne_nil)
          hitem.follows
        exact hopen.append (spells_symbol .bracketRight) (by simp) fun c hc => by
          obtain rfl := Option.some.inj hc
          exact follows_closes hkind (by decide)
    have := flags.text_part harray
    rw [TypeExpr.text, TypeExpr.pieces]
    simpa only [List.append_assoc, List.cons_append] using this

end Types

section Columns

/-- No cell is lost and none gets narrower. -/
structure Grows (widths after : List Nat) : Prop where
  length : widths.length ≤ after.length
  width : ∀ cell, widths.getD cell 0 ≤ after.getD cell 0

lemma Grows.refl (widths : List Nat) : Grows widths widths := ⟨Nat.le_refl _, fun _ => Nat.le_refl _⟩

lemma Grows.trans {a b c : List Nat} (h : Grows a b) (h' : Grows b c) : Grows a c :=
  ⟨h.length.trans h'.length, fun cell => (h.width cell).trans (h'.width cell)⟩

lemma grows_modify (widths : List Nat) (cell width : Nat) :
    Grows widths (widths.modify cell (max width)) := by
  refine ⟨by simp, fun i => ?_⟩
  simp only [List.getD_eq_getElem?_getD, List.getElem?_modify]
  cases widths[i]? with
  | none => simp
  | some w =>
    by_cases h : cell = i
    · simp [h]
    · simp [h]

lemma grows_append (widths more : List Nat) : Grows widths (widths ++ more) := by
  refine ⟨by simp, fun i => ?_⟩
  by_cases h : i < widths.length
  · simp [List.getD_eq_getElem?_getD, List.getElem?_append_left h]
  · simp [List.getD_eq_getElem?_getD, List.getElem?_eq_none (Nat.le_of_not_lt h)]

def WiderCells (widths : List Nat) (values : List Text) (cells : List Nat) : Prop :=
  List.Forall₂ (fun value cell => value.length < widths.getD cell 0) values cells

lemma WiderCells.grow {widths after : List Nat} (hg : Grows widths after) {values : List Text}
    {cells : List Nat} (h : WiderCells widths values cells) : WiderCells after values cells :=
  h.imp fun _ cell hlt => Nat.lt_of_lt_of_le hlt (hg.width cell)

structure Placed (widths : List Nat) (values : List Text) (result : List Nat × List Nat) : Prop where
  grows : Grows widths result.2
  bound : ∀ cell ∈ result.1, cell < result.2.length
  wider : WiderCells result.2 values result.1

lemma place_placed {above : List Nat} (values : List Text) {widths : List Nat}
    (h : ∀ cell ∈ above, cell < widths.length) :
    Placed widths values (Columns.place above values widths) := by
  induction values generalizing above widths with
  | nil =>
    rw [Columns.place]
    exact ⟨.refl _, by simp, .nil⟩
  | cons value values ih =>
    -- a value with a new cell of its own
    have hnew : Placed widths (value :: values) (widths.length ::
        (Columns.place [] values (widths ++ [value.length + 1])).1,
        (Columns.place [] values (widths ++ [value.length + 1])).2) := by
      obtain ⟨hgrows, hbound, hwider⟩ := @ih [] (widths ++ [value.length + 1]) (by simp)
      have hcell := hgrows.width widths.length
      have hlength := hgrows.length
      rw [List.getD_eq_getElem?_getD, List.getElem?_concat_length, Option.getD_some] at hcell
      rw [List.length_append, List.length_singleton] at hlength
      refine ⟨(grows_append _ _).trans hgrows, ?_, .cons (Nat.lt_of_succ_le hcell) hwider⟩
      exact List.forall_mem_cons.2 ⟨Nat.lt_of_succ_le hlength, hbound⟩
    rcases above with _ | ⟨cell, _ | ⟨next, above⟩⟩
    · exact hnew
    · exact hnew
    · rw [List.forall_mem_cons] at h
      have hmodify := grows_modify widths cell (value.length + 1)
      obtain ⟨hgrows, hbound, hwider⟩ := @ih (next :: above)
        (widths.modify cell (max (value.length + 1)))
        (fun c hc => Nat.lt_of_lt_of_le (h.2 c hc) hmodify.length)
      have hcell := hgrows.width cell
      have hlength := (hmodify.trans hgrows).length
      rw [List.getD_eq_getElem?_getD, List.getElem?_modify_eq, List.getElem?_eq_getElem h.1,
        Option.map_eq_map, Option.map_some, Option.getD_some] at hcell
      rw [Columns.place]
      refine ⟨hmodify.trans hgrows, ?_, .cons ?_ hwider⟩
      · exact List.forall_mem_cons.2 ⟨Nat.lt_of_lt_of_le h.1 hlength, hbound⟩
      · exact Nat.lt_of_lt_of_le (Nat.lt_of_succ_le (Nat.le_max_left _ _)) hcell

/-- A row with columns has cells that are wider than its values. -/
def RowPlan.Wider (widths : List Nat) (row : RowPlan) (cells : Option (List Nat)) : Prop :=
  row.gap ≠ .sameLine → WiderCells widths row.values (cells.getD [])

lemma cellsOf_wider {above widths : List Nat} (rows : List RowPlan)
    (h : ∀ cell ∈ above, cell < widths.length) :
    Grows widths (cellsOf above widths rows).2 ∧
      List.Forall₂ (RowPlan.Wider (cellsOf above widths rows).2) rows (cellsOf above widths rows).1 := by
  induction rows generalizing above widths with
  | nil => exact ⟨.refl _, .nil⟩
  | cons row rows ih =>
    rw [cellsOf]
    split
    · next hs => exact ⟨(ih h).1, .cons (fun hne => absurd hs hne) (ih h).2⟩
    · split
      · next hv =>
        obtain ⟨hgrows, hrows⟩ := @ih [] widths (by simp)
        exact ⟨hgrows, .cons (fun _ => by rw [hv]; exact .nil) hrows⟩
      · next values hv =>
        have habove : ∀ cell ∈ if row.gap = .blankLine then [] else above, cell < widths.length := by
          split
          · simp
          · exact h
        obtain ⟨hplace, hbound, hwider⟩ := place_placed row.values habove
        have hown : ∀ cell ∈ if row.onOneLine then
            (Columns.place (if row.gap = .blankLine then [] else above) row.values widths).1 else [],
            cell < (Columns.place (if row.gap = .blankLine then [] else above) row.values
              widths).2.length := by
          split
          · exact hbound
          · simp
        obtain ⟨hgrows, hrows⟩ := ih hown
        exact ⟨hplace.trans hgrows, .cons (fun _ => hwider.grow hgrows) hrows⟩

/-- Each width of a row is larger than the length of its value. -/
def RowPlan.Roomy (row : RowPlan) (widths : Option (List Nat)) : Prop :=
  row.gap ≠ .sameLine →
    List.Forall₂ (fun value width => value.length < width) row.values (widths.getD [])

lemma widthsOf_roomy (rows : List RowPlan) : List.Forall₂ RowPlan.Roomy rows (widthsOf rows) := by
  have hcells := (cellsOf_wider rows (by simp : ∀ cell ∈ ([] : List Nat), cell < [].length)).2
  rw [widthsOf]
  refine List.forall₂_map_right_iff.2 (hcells.imp fun row cells h hs => ?_)
  have hwider := h hs
  cases cells with
  | none =>
    rw [List.forall₂_nil_right_iff.1 hwider]
    exact .nil
  | some cells => exact List.forall₂_map_right_iff.2 hwider

variable {page : Page} {pieces more : List Piece} {last : Option TokenKind}

lemma writeRow_spells {values : List Text} {parts : List (List Piece)} {widths : List Nat}
    (h : page.Spells pieces none) (hne : values ≠ [])
    (hparts : List.Forall₂ (IsPart none) values parts)
    (hw : List.Forall₂ (fun value width => value.length < width) values widths) :
    (writeRow page values widths).Closed (pieces ++ parts.flatten) := by
  induction hparts generalizing page pieces widths with
  | nil => exact absurd rfl hne
  | @cons value part values parts hpart hparts ih =>
    cases hw with
    | @cons _ width _ widths hlt hw =>
      have hvalue := h.write_part hpart
      cases hparts with
      | nil => simpa [writeRow] using hvalue
      | @cons next _ values parts hnext hparts =>
        have hblank := hvalue.write_blank
        have hpad : ((page.write value).pad ((width : Int) - value.length)).Spells (pieces ++ part)
            none := by
          have hamount : ((width : Int) - value.length).toNat = width - value.length - 1 + 1 := by omega
          have := hblank.write_blanks (t := List.replicate (width - value.length - 1) ' ')
            fun c hc => by rw [List.eq_of_mem_replicate hc]; decide
          rw [Page.write_append] at this
          rw [Page.pad, hamount, List.replicate_succ]
          exact this
        have hrest := ih hpad (by simp) hw
        rw [List.append_assoc] at hrest
        rw [writeRow, List.headD_cons, List.tail_cons]
        · exact hrest
        · simp

end Columns

end DpLang
