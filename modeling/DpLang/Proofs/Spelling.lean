import DpLang.Proofs.Pieces

/-!
# Pages that spell plans

What the writers of expressions and lists put on a page spells the pieces of their plans. Each lemma
takes a page that spells some pieces and says which ones it spells after writing. Where two pieces
stand right behind each other, they must not run together: an operand ends in a way that lets
anything follow but a word, and starts in a way that lets it follow any symbol.
-/

namespace DpLang

section Pages

lemma Page.value_write (page : Page) (t : Text) : (page.write t).value = page.value ++ t := by
  simp [Page.write, Page.value]

/-- The page spells the pieces, and `last` is the kind of the piece that is open at its end. -/
def Page.Spells (page : Page) (pieces : List Piece) (last : Option TokenKind) : Prop :=
  DpLang.Spells page.value pieces last

variable {page : Page} {pieces more : List Piece} {last next : Option TokenKind} {t : Text}

lemma Page.spells_of_value (h : page.value = []) : page.Spells [] none := by
  rw [Page.Spells, h]
  exact spells_nil

lemma Page.Spells.write (h : page.Spells pieces last) (ht : DpLang.Spells t more next)
    (hempty : t = [] → last = none) (hhead : ∀ c ∈ t.head?, Follows last c) :
    (page.write t).Spells (pieces ++ more) next := by
  rw [Page.Spells, Page.value_write]
  exact DpLang.Spells.append h ht hempty hhead

lemma Page.Spells.write_free (h : page.Spells pieces none) (ht : DpLang.Spells t more next) :
    (page.write t).Spells (pieces ++ more) next :=
  h.write ht (fun _ => rfl) fun c _ => follows_none c

lemma Page.Spells.write_blank (h : page.Spells pieces last) (hs : last ≠ some .space)
    (hc : last ≠ some .comment) : (page.write [' ']).Spells pieces none := by
  have hblank : DpLang.Spells [' '] [] none := spells_blanks (by simp; decide)
  have := h.write hblank (by simp) (by simpa using follows_blank hs hc)
  rwa [List.append_nil] at this

lemma Page.Spells.write_blanks (h : page.Spells pieces none)
    (ht : ∀ c ∈ t, Token.isSpaceChar c = true) : (page.write t).Spells pieces none := by
  have := h.write_free (spells_blanks ht)
  rwa [List.append_nil] at this

lemma Page.Spells.pad (h : page.Spells pieces none) (amount : Int) :
    (page.pad amount).Spells pieces none :=
  h.write_blanks fun c hc => by rw [List.eq_of_mem_replicate hc]; decide

lemma Page.Spells.indent (h : page.Spells pieces none) (level : Int) :
    (page.indent level).Spells pieces none :=
  h.write_blanks fun c hc => by rw [List.eq_of_mem_replicate hc]; decide

lemma isLexeme_symbol (s : Symbol) : IsLexeme (.symbol s) s.spelling := by
  unfold IsLexeme
  cases s <;> decide

lemma isLexeme_keyword (k : Keyword) : IsLexeme (.keyword k) k.spelling := by
  unfold IsLexeme
  cases k <;> decide

lemma spells_symbol (s : Symbol) : DpLang.Spells s.spelling [symbolPiece s] (some (.symbol s)) :=
  spells_piece (isLexeme_symbol s) nofun

lemma spells_keyword (k : Keyword) : DpLang.Spells k.spelling [keywordPiece k] (some (.keyword k)) :=
  spells_piece (isLexeme_keyword k) nofun

lemma spells_word {word : Text} (h : IsLexeme .word word) :
    DpLang.Spells word [wordPiece word] (some .word) :=
  spells_piece h nofun

lemma Page.Spells.write_symbol (h : page.Spells pieces last) (s : Symbol)
    (hl : Follows last (s.spelling.headD ' ')) :
    (page.write s.spelling).Spells (pieces ++ [symbolPiece s]) (some (.symbol s)) := by
  refine h.write (spells_symbol s) (fun hn => by cases s <;> cases hn) fun c hc => ?_
  rw [List.headD_eq_head?_getD, hc] at hl
  exact hl

lemma Page.Spells.write_newline (h : page.Spells pieces last) (hs : last ≠ some .space) :
    (page.write ['\n']).Spells (pieces ++ [linePiece]) none := by
  have hline : DpLang.Spells ['\n'] [linePiece] none :=
    ⟨fun _ _ _ hscan => .piece (by unfold IsLexeme; decide) nofun trivial hscan, by simp⟩
  exact h.write hline (by simp) (by simpa using follows_newline hs)

end Pages

section Joins

/-- A text that ends like an operand and may stand behind `before`. -/
structure IsPart (before : Option TokenKind) (text : Text) (pieces : List Piece) : Prop where
  ne_nil : text ≠ []
  follows : ∀ c ∈ text.head?, Follows before c
  spells : ∃ kind, TokenKind.closes kind = true ∧ Spells text pieces (some kind)

lemma joined_cons_cons (separator : Symbol) (a b : List Piece) (parts : List (List Piece)) :
    joined separator (a :: b :: parts) = a ++ symbolPiece separator :: joined separator (b :: parts) := by
  simp [joined]

lemma isPart_join {between : Text} {separator : Symbol} {before after : Option TokenKind}
    (hsep : Spells between [symbolPiece separator] after)
    (hhead : ∃ c t, between = c :: t ∧ Token.isWordChar c = false) (first : Text × List Piece)
    {parts : List (Text × List Piece)} (hfirst : IsPart before first.1 first.2)
    (h : ∀ part ∈ parts, IsPart after part.1 part.2) :
    IsPart before (Text.join between ((first :: parts).map Prod.fst))
      (joined separator ((first :: parts).map Prod.snd)) := by
  induction parts generalizing first before with
  | nil => simpa [Text.join, List.intercalate, joined] using hfirst
  | cons second parts ih =>
    rw [List.forall_mem_cons] at h
    obtain ⟨hne, hfollows, kind, hkind, hspells⟩ := ih second h.1 h.2
    obtain ⟨kind', hkind', hspells'⟩ := hfirst.spells
    obtain ⟨c, t, rfl, hc⟩ := hhead
    have htext : Text.join (c :: t) ((first :: second :: parts).map Prod.fst) =
        (first.1 ++ c :: t) ++ Text.join (c :: t) ((second :: parts).map Prod.fst) := by
      simp [Text.join, List.intercalate]
    have hpieces : joined separator ((first :: second :: parts).map Prod.snd) =
        (first.2 ++ [symbolPiece separator]) ++ joined separator ((second :: parts).map Prod.snd) := by
      simp [joined_cons_cons]
    rw [htext, hpieces]
    refine ⟨by simp [hfirst.ne_nil], ?_, kind, hkind, ?_⟩
    · rw [List.append_assoc]
      cases hf : first.1 with
      | nil => exact absurd hf hfirst.ne_nil
      | cons d u =>
        have := hfirst.follows
        rw [hf] at this
        exact this
    · refine (hspells'.append hsep (by simp) ?_).append hspells (fun hn => absurd hn hne) hfollows
      intro d hd
      obtain rfl := Option.some.inj hd
      exact follows_closes hkind' hc

/-- Words may stand behind any symbol and any blank. -/
def Opens (last : Option TokenKind) : Prop := ∀ kind ∈ last, ∃ s, kind = .symbol s

lemma follows_opens {last : Option TokenKind} (h : Opens last) {c : Char} (hc : c ≠ '&') (hc' : c ≠ '^')
    (hmem : c ∉ ['|', '<', '>', '=', ':', '/']) : Follows last c := by
  rintro kind rfl rest
  obtain ⟨s, rfl⟩ := h kind rfl
  exact (follows_some c).1 (follows_symbol (joins_eq_false hc hc' hmem)) rest

lemma follows_wordStart {last : Option TokenKind} (h : Opens last) {c : Char}
    (hc : Token.isWordStart c = true) : Follows last c := by
  have hne (d : Char) (hd : Token.isWordStart d = false) : c ≠ d := by
    rintro rfl
    rw [hd] at hc
    cases hc
  refine follows_opens h (hne _ (by decide)) (hne _ (by decide)) fun hmem => ?_
  simp only [List.mem_cons, List.not_mem_nil, or_false] at hmem
  rcases hmem with rfl | rfl | rfl | rfl | rfl | rfl <;> exact absurd hc (by decide)

lemma isPart_word {last : Option TokenKind} (h : Opens last) {word : Text} (hw : IsLexeme .word word) :
    IsPart last word [wordPiece word] where
  ne_nil := hw.ne_nil
  follows c hc := by
    obtain ⟨-, ⟨d, tail, rfl, hd⟩, -⟩ := hw.shape
    obtain rfl := Option.some.inj hc
    exact follows_wordStart h hd
  spells := ⟨.word, rfl, spells_word hw⟩

/-- The page spells the pieces and ends like an operand. -/
def Page.Closed (page : Page) (pieces : List Piece) : Prop :=
  ∃ kind, TokenKind.closes kind = true ∧ page.Spells pieces (some kind)

variable {page : Page} {pieces more : List Piece} {last next : Option TokenKind} {t : Text}

lemma Page.Spells.write_part (h : page.Spells pieces last) (ht : IsPart last t more) :
    (page.write t).Closed (pieces ++ more) := by
  obtain ⟨kind, hkind, hspells⟩ := ht.spells
  exact ⟨kind, hkind, h.write hspells (fun hn => absurd hn ht.ne_nil) ht.follows⟩

lemma spelling_head (s : Symbol) : ∃ c t, s.spelling = c :: t ∧ Token.isWordChar c = false := by
  cases s <;> exact ⟨_, _, rfl, by decide⟩

lemma Page.Closed.write_symbol (h : page.Closed pieces) (s : Symbol) :
    (page.write s.spelling).Spells (pieces ++ [symbolPiece s]) (some (.symbol s)) := by
  obtain ⟨kind, hkind, hspells⟩ := h
  obtain ⟨c, t, hs, hc⟩ := spelling_head s
  refine hspells.write (spells_symbol s) (by rw [hs]; simp) ?_
  rw [hs]
  simpa using follows_closes hkind hc

lemma Page.Closed.write_closing (h : page.Closed pieces) {s : Symbol}
    (hs : TokenKind.closes (.symbol s) = true) :
    (page.write s.spelling).Closed (pieces ++ [symbolPiece s]) :=
  ⟨_, hs, h.write_symbol s⟩

lemma closes_ne {kind : TokenKind} (h : kind.closes = true) :
    some kind ≠ some .space ∧ some kind ≠ some .comment := by
  constructor <;> (intro hk; obtain rfl := Option.some.inj hk; cases h)

lemma Page.Closed.write_blank (h : page.Closed pieces) : (page.write [' ']).Spells pieces none := by
  obtain ⟨kind, hkind, hspells⟩ := h
  exact Page.Spells.write_blank hspells (closes_ne hkind).1 (closes_ne hkind).2

lemma Page.Closed.write_operator (h : page.Closed pieces) (op : BinaryOp) (tight : Bool) :
    ∃ next, Opens next ∧
      (page.write (if tight then op.text else ' ' :: op.text ++ [' '])).Spells
        (pieces ++ [symbolPiece op.symbol]) next := by
  cases tight with
  | true =>
    refine ⟨_, ?_, h.write_symbol op.symbol⟩
    intro kind hkind
    exact ⟨_, (Option.some.inj hkind).symm⟩
  | false =>
    refine ⟨none, by simp [Opens], ?_⟩
    have hblank := (h.write_blank.write_free (spells_symbol op.symbol)).write_blank nofun nofun
    rw [Page.write_append, Page.write_append] at hblank
    exact hblank

end Joins

section Lists

def Item.text : Item → Text
  | code text => text
  | aligned text => text
  | alone text => text

/-- The entries of a list spell pieces. `afterComment` tells whether a comment stands in front of
them, behind which nothing stays on the same line. -/
inductive EntriesSpell : Bool → List Entry → List Piece → Prop where
  | nil {afterComment : Bool} : EntriesSpell afterComment [] []
  | cons {afterComment : Bool} {entry : Entry} {entries : List Entry} {pieces more : List Piece}
      {last : Option TokenKind} (gap : entry.gap = .sameLine → afterComment = false)
      (visible : last ≠ some .space) (spells : Spells entry.item.text pieces last)
      (rest : EntriesSpell (decide (last = some .comment)) entries more) :
      EntriesSpell afterComment (entry :: entries) (entry.gap.pieces ++ pieces ++ more)

variable {page : Page} {pieces more : List Piece} {last : Option TokenKind} {afterComment : Bool}

lemma EntriesSpell.comment {gap : Gap} {item : Item} {text : Text} {entries : List Entry}
    (hgap : gap = .sameLine → afterComment = false) (hitem : item.text = text)
    (htext : IsCommentText text) (rest : EntriesSpell true entries more) :
    EntriesSpell afterComment (⟨gap, item⟩ :: entries) (gap.pieces ++ commentPiece text :: more) := by
  have hspells : Spells item.text [commentPiece text] (some .comment) := by
    rw [hitem]
    exact spells_piece htext.1 nofun
  have hentry : EntriesSpell afterComment (⟨gap, item⟩ :: entries)
      (gap.pieces ++ [commentPiece text] ++ more) := .cons hgap (by decide) hspells rest
  rw [List.append_assoc] at hentry
  exact hentry

lemma EntriesSpell.code {gap : Gap} {text : Text} {own : List Piece} {entries : List Entry}
    (hgap : gap = .sameLine → afterComment = false) (htext : Spells text own last)
    (hk : last ≠ some .space ∧ last ≠ some .comment)
    (rest : EntriesSpell false entries more) :
    EntriesSpell afterComment (⟨gap, .code text⟩ :: entries) (gap.pieces ++ own ++ more) := by
  refine .cons hgap hk.1 htext ?_
  rw [decide_eq_false hk.2]
  exact rest

lemma Gap.write_spells (h : page.Spells pieces last) (hs : last ≠ some .space) {gap : Gap}
    (hc : gap = .sameLine → last ≠ some .comment) (level : Nat) :
    (gap.write level page).Spells (pieces ++ gap.pieces) none := by
  cases gap with
  | sameLine =>
    rw [Gap.pieces, List.append_nil]
    exact h.write_blank hs (hc rfl)
  | nextLine => exact (h.write_newline hs).indent level
  | blankLine =>
    have hlines := (h.write_newline hs).write_newline nofun
    rw [Page.write_append, List.append_assoc] at hlines
    exact hlines.indent level

lemma ListStyle.writeItem_spells (style : ListStyle) {item : Item} (h : page.Spells pieces none)
    (hi : Spells item.text more last) (columns : CommentColumns) :
    (style.writeItem item page columns).1.Spells (pieces ++ more) last := by
  cases item with
  | code text => exact h.write_free hi
  | alone text => exact h.write_free hi
  | aligned text =>
    unfold ListStyle.writeItem ListStyle.writeComment
    dsimp only
    split
    · exact (h.pad _).write_free hi
    · exact h.write_free hi

lemma ListStyle.writeEntry_spells (style : ListStyle) {entry : Entry} {next : Option TokenKind}
    (h : page.Spells pieces last) (hs : last ≠ some .space)
    (hc : entry.gap = .sameLine → last ≠ some .comment) (hi : Spells entry.item.text more next)
    (columns : CommentColumns) :
    (style.writeEntry entry page columns).1.Spells (pieces ++ (entry.gap.pieces ++ more)) next := by
  have hitem := style.writeItem_spells (Gap.write_spells h hs hc style.level) hi columns
  rw [List.append_assoc] at hitem
  unfold ListStyle.writeEntry
  dsimp only
  split
  · exact hitem
  · exact hitem

lemma ListStyle.pass_spells (style : ListStyle) {entries : List Entry}
    (he : EntriesSpell afterComment entries more) (h : page.Spells pieces last)
    (hs : last ≠ some .space) (hc : last = some .comment → afterComment = true)
    (columns : CommentColumns) :
    ∃ next, next ≠ some .space ∧
      (style.pass entries page columns).1.Spells (pieces ++ more) next := by
  induction he generalizing page pieces last columns with
  | nil =>
    rw [List.append_nil]
    exact ⟨last, hs, h⟩
  | @cons afterComment entry entries own more next gap visible spells rest ih =>
    have hgap : entry.gap = .sameLine → last ≠ some .comment := by
      intro hg hl
      have := gap hg
      rw [hc hl] at this
      cases this
    have hentry := style.writeEntry_spells h hs hgap spells columns
    obtain ⟨after, hafter, hpass⟩ := ih hentry visible (by simp) (style.writeEntry entry page columns).2
    rw [List.append_assoc] at hpass
    exact ⟨after, hafter, hpass⟩

lemma ListStyle.write_spells (style : ListStyle) {entries : List Entry}
    (he : EntriesSpell false entries more) (h : page.Spells pieces last)
    (hs : last ≠ some .space) (hc : last ≠ some .comment) :
    ((style.write entries page).write ['\n']).Spells (pieces ++ more ++ [linePiece]) none := by
  obtain ⟨next, hnext, hpass⟩ :=
    style.pass_spells he h hs (fun hl => absurd hl hc) (style.measure entries page)
  exact Page.Spells.write_newline hpass hnext

lemma opens_symbol (s : Symbol) : Opens (some (.symbol s)) := fun _ hkind =>
  ⟨s, (Option.some.inj hkind).symm⟩

lemma writeDelimited_spells {level : Nat} {entries : List Entry} (he : EntriesSpell false entries more)
    (h : page.Spells pieces last) (hl : Follows last '(') :
    (writeDelimited level entries page).Closed (pieces ++ inParens (more ++ [linePiece])) := by
  have hopen := h.write_symbol .parenLeft hl
  have hlines := (valueStyle level).write_spells he hopen nofun nofun
  have hclose := (hlines.indent (level - 1 : Nat)).write_free (spells_symbol .parenRight)
  refine ⟨.symbol .parenRight, rfl, ?_⟩
  have hpieces : pieces ++ inParens (more ++ [linePiece]) =
      pieces ++ [symbolPiece .parenLeft] ++ more ++ [linePiece] ++ [symbolPiece .parenRight] := by
    simp [inParens]
  rw [hpieces]
  exact hclose

end Lists

section Expressions

variable {page : Page} {pieces : List Piece} {last : Option TokenKind}

lemma opens_none : Opens none := by simp [Opens]

lemma lastChar?_of_symbol {s : Symbol} (h : page.Spells pieces (some (.symbol s))) :
    page.lastChar? = s.spelling.getLast? := by
  have hends := h.ends s rfl
  rw [Page.value, List.getLast?_reverse] at hends
  unfold Page.lastChar?
  cases hw : page.written with
  | nil =>
    rw [hw] at hends
    cases s <;> cases hends
  | cons c written =>
    rw [hw] at hends
    exact hends

/-- An ampersand is kept apart from one in front of it, and so is a caret. -/
lemma Page.Spells.write_apart (h : page.Spells pieces last) (ho : Opens last) {s : Symbol}
    (hs : s = .ampersand ∨ s = .caret) :
    ((if page.lastChar? == some '&' then page.write [' '] else page).write s.spelling).Spells
      (pieces ++ [symbolPiece s]) (some (.symbol s)) := by
  have hne (kind : TokenKind) (hk : kind = .space ∨ kind = .comment) : last ≠ some kind := by
    intro hl
    obtain ⟨t, ht⟩ := ho kind hl
    rw [ht] at hk
    rcases hk with hk | hk <;> cases hk
  split
  · exact (h.write_blank (hne _ (.inl rfl)) (hne _ (.inr rfl))).write_free (spells_symbol s)
  · next hlast =>
    refine h.write_symbol s ?_
    rintro kind rfl rest
    obtain ⟨t, rfl⟩ := ho kind rfl
    refine (follows_some _).1 (follows_symbol ?_) rest
    cases hj : t.joins (s.spelling.headD ' ') with
    | false => rfl
    | true =>
      rcases joins_cases hj with ⟨-, hand⟩ | hmem
      · rw [lastChar?_of_symbol h, hand] at hlast
        exact absurd (beq_self_eq_true _) hlast
      · rcases hs with rfl | rfl <;> exact absurd hmem (by decide)

lemma follows_symbolHead (ho : Opens last) {s : Symbol}
    (hs : s = .asterisk ∨ s = .minus ∨ s = .exclamation ∨ s = .parenLeft ∨ s = .braceLeft) :
    Follows last (s.spelling.headD ' ') := by
  rcases hs with rfl | rfl | rfl | rfl | rfl <;>
    exact follows_opens ho (by decide) (by decide) (by decide)

lemma keyword_isPart (ho : Opens last) (k : Keyword) : IsPart last k.spelling [keywordPiece k] where
  ne_nil := (isLexeme_keyword k).ne_nil
  follows c hc := by
    have hstart : Token.isWordStart c = true := by
      cases k <;> (obtain rfl := Option.some.inj hc; decide)
    exact follows_wordStart ho hstart
  spells := ⟨_, rfl, spells_keyword k⟩

lemma PrefixOp.write_spells (h : page.Spells pieces last) (ho : Opens last) {op : PrefixOp}
    (hop : op ≠ .unary .identity) :
    ∃ next, Opens next ∧ (op.write page).Spells (pieces ++ [op.piece]) next := by
  cases op with
  | address => exact ⟨_, opens_symbol _, h.write_apart ho (.inl rfl)⟩
  | clone =>
    refine ⟨none, opens_none, ?_⟩
    have := (h.write_part (keyword_isPart ho .cloneKw)).write_blank
    rw [Page.write_append] at this
    exact this
  | dereference =>
    exact ⟨_, opens_symbol _, h.write_symbol .asterisk (follows_symbolHead ho (by simp))⟩
  | unary op =>
    cases op with
    | identity => exact absurd rfl hop
    | negate => exact ⟨_, opens_symbol _, h.write_symbol .minus (follows_symbolHead ho (by simp))⟩
    | complement => exact ⟨_, opens_symbol _, h.write_apart ho (.inr rfl)⟩
    | not => exact ⟨_, opens_symbol _, h.write_symbol .exclamation (follows_symbolHead ho (by simp))⟩

lemma names_isPart (ho : Opens last) {names : List Text} (h : AreNames names) :
    IsPart last (Text.join ['.'] names) (joinedWords .period names) := by
  obtain ⟨hne, hall⟩ := h
  cases names with
  | nil => exact absurd rfl hne
  | cons name names =>
    rw [List.forall_mem_cons] at hall
    have hparts : ∀ part ∈ names.map fun w => (w, [wordPiece w]),
        IsPart (some (.symbol .period)) part.1 part.2 := by
      intro part hpart
      obtain ⟨w, hw, rfl⟩ := List.mem_map.1 hpart
      exact isPart_word (opens_symbol _) (hall.2 w hw)
    have hjoin := isPart_join (spells_symbol .period) (spelling_head .period) (name, [wordPiece name])
      (isPart_word ho hall.1) hparts
    simpa [joinedWords, Function.comp_def, Symbol.spelling] using hjoin

lemma dereference_isPart (hf : Follows last '(') {name : Text} (h : IsLexeme .word name) :
    IsPart last (dereferenceText name) (inParens [wordPiece name]) where
  ne_nil := by simp [dereferenceText]
  follows c hc := by obtain rfl := Option.some.inj hc; exact hf
  spells := by
    refine ⟨.symbol .parenRight, rfl, ?_⟩
    have hname := (isPart_word (opens_symbol .parenLeft) h)
    have hopen := (spells_symbol .parenLeft).append (spells_word h) (fun hn => absurd hn hname.ne_nil)
      hname.follows
    exact hopen.append (spells_symbol .parenRight) (by simp) fun c hc => by
      obtain rfl := Option.some.inj hc
      exact follows_closes rfl (by decide)

lemma Page.Closed.write_comma (h : page.Closed pieces) :
    (page.write ", ").Spells (pieces ++ [symbolPiece .comma]) none := by
  have := (h.write_symbol .comma).write_blank nofun nofun
  rw [Page.write_append] at this
  exact this

lemma literal_isPart (ho : Opens last) {kind : LiteralKind} {source : Text}
    (h : IsLexeme kind.tokenKind source) : IsPart last source [(kind.tokenKind, source)] where
  ne_nil := h.ne_nil
  follows c hc := by
    have hshape := h.shape
    cases kind with
    | integer =>
      obtain ⟨hall, -⟩ := hshape
      have hdigit := hall c (List.mem_of_head? hc)
      have hne (d : Char) (hd : Text.isDigit d = false) : c ≠ d := by
        rintro rfl
        rw [hd] at hdigit
        cases hdigit
      refine follows_opens ho (hne _ (by decide)) (hne _ (by decide)) fun hmem => ?_
      simp only [List.mem_cons, List.not_mem_nil, or_false] at hmem
      rcases hmem with rfl | rfl | rfl | rfl | rfl | rfl <;> exact absurd hdigit (by decide)
    | character =>
      obtain rfl := Option.some.inj (hc.symm.trans hshape)
      exact follows_opens ho (by decide) (by decide) (by decide)
    | string =>
      rcases hshape with hq | hq
      all_goals
        obtain rfl := Option.some.inj (hc.symm.trans hq)
        exact follows_opens ho (by decide) (by decide) (by decide)
  spells := by
    refine ⟨_, ?_, spells_piece h ?_⟩
    · cases kind <;> rfl
    · cases kind <;> nofun

lemma IsPart.with_comma {text : Text} {own : List Piece} (h : IsPart last text own) :
    Spells (text ++ [',']) (own ++ [symbolPiece .comma]) (some (.symbol .comma)) := by
  obtain ⟨kind, hkind, hspells⟩ := h.spells
  refine hspells.append (spells_symbol .comma) (by simp) fun c hc => ?_
  obtain rfl := Option.some.inj hc
  exact follows_closes hkind (by decide)

/-- What is written for the plan spells its pieces, wherever an operand may start. -/
def ExprPlan.Spelled (level outer : Nat) (tight right : Bool) (plan : ExprPlan) : Prop :=
  ∀ ⦃page : Page⦄ ⦃pieces : List Piece⦄ ⦃last : Option TokenKind⦄, page.Spells pieces last →
    Opens last → (plan.write level outer tight right page).Closed (pieces ++ plan.pieces outer tight right)

lemma binary_spelled {level : Nat} {left operand : ExprPlan} {op : BinaryOp}
    (hleft : ∀ tight, left.Spelled level op.precedence tight false)
    (hoperand : ∀ tight, operand.Spelled level op.precedence tight true) (outer : Nat)
    (tight right : Bool) : (ExprPlan.binary left op operand).Spelled level outer tight right := by
  intro page pieces last h ho
  rw [ExprPlan.write, ExprPlan.pieces]
  generalize BinaryStyle.choose op.precedence outer tight right = style
  have hinner {page : Page} {pieces : List Piece} {last : Option TokenKind}
      (h : page.Spells pieces last) (ho : Opens last) :
      (operand.write level op.precedence style.tight true
        ((left.write level op.precedence style.tight false page).write
          (if style.tight then op.text else ' ' :: op.text ++ [' ']))).Closed
        (pieces ++ (left.pieces op.precedence style.tight false ++
          symbolPiece op.symbol :: operand.pieces op.precedence style.tight true)) := by
    obtain ⟨next, hnext, hop⟩ := (hleft style.tight h ho).write_operator op style.tight
    have hright := hoperand style.tight hop hnext
    rw [List.append_assoc, List.append_assoc] at hright
    exact hright
  cases style.parens with
  | true =>
    have hopen := h.write_symbol .parenLeft (follows_symbolHead ho (by simp))
    have hclose := (hinner hopen (opens_symbol _)).write_closing (s := .parenRight) rfl
    rw [List.append_assoc, List.append_assoc] at hclose
    exact hclose
  | false => exact hinner h ho

lemma spreadCall_spelled {level : Nat} {names : List Text} {args : List ValuePlan}
    (hnames : AreNames names)
    (hargs : EntriesSpell false (valueEntriesOf level true args) (spreadPieces args)) (outer : Nat)
    (tight right : Bool) : (ExprPlan.call names true args).Spelled level outer tight right := by
  intro page pieces last h ho
  rw [ExprPlan.write, ExprPlan.pieces, ← List.append_assoc]
  obtain ⟨kind, hkind, hspells⟩ := h.write_part (names_isPart ho hnames)
  exact writeDelimited_spells hargs hspells (follows_closes hkind (by decide))

lemma inlineCall_spelled {names : List Text} {args : List ValuePlan} (hnames : AreNames names)
    (hargs : args ≠ [] → ∀ {page : Page} {pieces : List Piece} {last : Option TokenKind},
      page.Spells pieces last → Opens last →
        (writeInline true page args).Closed (pieces ++ inlinePieces true args))
    (level outer : Nat) (tight right : Bool) :
    (ExprPlan.call names false args).Spelled level outer tight right := by
  intro page pieces last h ho
  have hopen := (h.write_part (names_isPart ho hnames)).write_symbol .parenLeft
  rw [ExprPlan.write, ExprPlan.pieces, ← List.append_assoc]
  cases args with
  | nil =>
    have hclose := hopen.write_symbol .parenRight (follows_opens (opens_symbol _) (by decide)
      (by decide) (by decide))
    rw [List.append_assoc] at hclose
    exact ⟨.symbol .parenRight, rfl, hclose⟩
  | cons arg args =>
    have hclose := (hargs (by simp) hopen (opens_symbol _)).write_closing (s := .parenRight) rfl
    rw [List.append_assoc, List.append_assoc] at hclose
    exact hclose

mutual
lemma ExprPlan.write_spells (level outer : Nat) (tight right : Bool) :
    ∀ plan : ExprPlan, plan.WF → plan.Spelled level outer tight right := by
  intro plan hwf page pieces last h ho
  cases plan with
  | prefixed op operand =>
    rw [ExprPlan.WF] at hwf
    obtain ⟨next, hnext, hspells⟩ := PrefixOp.write_spells h ho hwf.1
    have hoperand := ExprPlan.write_spells level ultimatePrecedence tight false operand hwf.2 hspells hnext
    rw [List.append_assoc] at hoperand
    rw [ExprPlan.write, ExprPlan.pieces]
    exact hoperand
  | binary left op operand =>
    rw [ExprPlan.WF] at hwf
    exact binary_spelled (fun tight => ExprPlan.write_spells level op.precedence tight false left hwf.1)
      (fun tight => ExprPlan.write_spells level op.precedence tight true operand hwf.2) outer tight right h ho
  | boolean value =>
    rw [ExprPlan.write, ExprPlan.pieces]
    cases value with
    | true => exact h.write_part (keyword_isPart ho .trueKw)
    | false => exact h.write_part (keyword_isPart ho .falseKw)
  | call names spread args =>
    rw [ExprPlan.WF] at hwf
    obtain ⟨hnames, hshape, hargs⟩ := hwf
    cases spread with
    | true =>
      exact spreadCall_spelled hnames (valueEntries_spell level args true false hargs hshape.2)
        outer tight right h ho
    | false =>
      exact inlineCall_spelled hnames (fun hne => writeInline_spells args hne hargs hshape)
        level outer tight right h ho
  | index names subscript =>
    rw [ExprPlan.WF] at hwf
    have hopen := (h.write_part (names_isPart ho hwf.1)).write_symbol .bracketLeft
    have hinner := ExprPlan.write_spells level 0 false false subscript hwf.2 hopen (opens_symbol _)
    have hclose := hinner.write_closing (s := .bracketRight) rfl
    rw [ExprPlan.write, ExprPlan.pieces]
    rw [Page.write_append] at hclose
    simpa [Symbol.spelling] using hclose
  | literal kind source =>
    rw [ExprPlan.WF] at hwf
    rw [ExprPlan.write, ExprPlan.pieces]
    exact h.write_part (literal_isPart ho hwf)
  | nil =>
    rw [ExprPlan.write, ExprPlan.pieces]
    exact h.write_part (keyword_isPart ho .nilKw)
  | selector names =>
    rw [ExprPlan.WF] at hwf
    rw [ExprPlan.write, ExprPlan.pieces]
    exact h.write_part (names_isPart ho hwf)
  | zero =>
    have hopen := h.write_symbol .braceLeft (follows_symbolHead ho (by simp))
    have hclose := hopen.write_symbol .braceRight (follows_opens (opens_symbol _) (by decide)
      (by decide) (by decide))
    rw [ExprPlan.write, ExprPlan.pieces]
    rw [Page.write_append, List.append_assoc] at hclose
    exact ⟨.symbol .braceRight, rfl, hclose⟩

lemma writeInline_closed : ∀ values : List ValuePlan, ValuesWF values → areFlat values →
    ∀ {page : Page} {pieces : List Piece}, page.Closed pieces →
      (writeInline false page values).Closed (pieces ++ inlinePieces false values) := by
  intro values hwf hflat page pieces h
  match values with
  | [] =>
    rw [writeInline, inlinePieces, List.append_nil]
    exact h
  | .comment _ _ :: values => exact Bool.noConfusion hflat
  | .dereference _ name :: values =>
    rw [ValuesWF] at hwf
    rw [areFlat] at hflat
    have hname := h.write_comma.write_part (dereference_isPart (follows_none _) hwf.1)
    have hrest := writeInline_closed values hwf.2 hflat hname
    rw [writeInline, inlinePieces]
    simpa using hrest
  | .value _ value :: values =>
    rw [ValuesWF] at hwf
    rw [areFlat, Bool.and_eq_true] at hflat
    have hvalue := ExprPlan.write_spells 0 0 false false value hwf.1 h.write_comma opens_none
    have hrest := writeInline_closed values hwf.2 hflat.2 hvalue
    rw [writeInline, inlinePieces]
    simpa using hrest

lemma writeInline_spells : ∀ values : List ValuePlan, values ≠ [] → ValuesWF values → areFlat values →
    ∀ {page : Page} {pieces : List Piece} {last : Option TokenKind}, page.Spells pieces last →
      Opens last → (writeInline true page values).Closed (pieces ++ inlinePieces true values) := by
  intro values hne hwf hflat page pieces last h ho
  match values with
  | [] => exact absurd rfl hne
  | .comment _ _ :: values => exact Bool.noConfusion hflat
  | .dereference _ name :: values =>
    rw [ValuesWF] at hwf
    rw [areFlat] at hflat
    have hname := h.write_part (dereference_isPart (follows_symbolHead ho (.inr (.inr (.inr (.inl rfl)))))
      hwf.1)
    have hrest := writeInline_closed values hwf.2 hflat hname
    rw [writeInline, inlinePieces]
    simpa using hrest
  | .value _ value :: values =>
    rw [ValuesWF] at hwf
    rw [areFlat, Bool.and_eq_true] at hflat
    have hvalue := ExprPlan.write_spells 0 0 false false value hwf.1 h ho
    have hrest := writeInline_closed values hwf.2 hflat.2 hvalue
    rw [writeInline, inlinePieces]
    simpa using hrest

lemma valueEntries_spell (level : Nat) : ∀ (values : List ValuePlan) (first afterComment : Bool),
    ValuesWF values → GapsOk afterComment (values.map ValuePlan.mark) →
      EntriesSpell afterComment (valueEntriesOf level first values) (spreadPieces values) := by
  intro values first afterComment hwf hgaps
  match values with
  | [] =>
    rw [valueEntriesOf, spreadPieces]
    exact .nil
  | .comment gap text :: values =>
    rw [ValuesWF] at hwf
    obtain ⟨hgap, hgaps⟩ := hgaps
    have hrest := valueEntries_spell level values false true hwf.2 hgaps
    rw [valueEntriesOf, spreadPieces]
    exact .comment (fun hg => (hgap hg).2) (by cases first <;> rfl) hwf.1 hrest
  | .dereference gap name :: values =>
    rw [ValuesWF] at hwf
    obtain ⟨hgap, hgaps⟩ := hgaps
    have hrest := valueEntries_spell level values false false hwf.2 hgaps
    have htext := (dereference_isPart (follows_none _) hwf.1).with_comma
    rw [valueEntriesOf, spreadPieces]
    have hentry := EntriesSpell.code (fun hg => (hgap hg).2) htext (by decide) hrest
    simpa using hentry
  | .value gap value :: values =>
    rw [ValuesWF] at hwf
    obtain ⟨hgap, hgaps⟩ := hgaps
    have hrest := valueEntries_spell level values false false hwf.2 hgaps
    have hstart : (Page.indented level).Spells [] none := Page.spells_of_value rfl
    have hvalue := ExprPlan.write_spells (level + 1) 0 false false value hwf.1 hstart opens_none
    have htext := hvalue.write_symbol .comma
    rw [Page.Spells, Page.value_write, List.nil_append,
      show Symbol.comma.spelling = [','] from rfl] at htext
    rw [valueEntriesOf, spreadPieces]
    have hentry := EntriesSpell.code (fun hg => (hgap hg).2) htext (by decide) hrest
    simpa using hentry
end

end Expressions

end DpLang
