import DpLang.Proofs.SpellingRow

/-!
# Statements that spell their plans

Lists of values and statements. A list that would start with a brace is tried out on a fork of the
page first and then put in parentheses. Its text starts with no blank, so its first character tells
its first token.
-/

namespace DpLang

section Guards

lemma Page.prefix_write (page : Page) (t : Text) : page.value <+: (page.write t).value := by
  rw [Page.value_write]
  exact List.prefix_append _ _

lemma Gap.prefix_write (gap : Gap) (level : Nat) (page : Page) :
    page.value <+: (gap.write level page).value := by
  cases gap with
  | sameLine => exact page.prefix_write _
  | nextLine => exact (page.prefix_write _).trans (Page.prefix_write _ _)
  | blankLine => exact (page.prefix_write _).trans (Page.prefix_write _ _)

lemma ListStyle.prefix_writeEntry (style : ListStyle) (entry : Entry) (page : Page)
    (columns : CommentColumns) : page.value <+: (style.writeEntry entry page columns).1.value := by
  have hitem (page : Page) : page.value <+: (style.writeItem entry.item page columns).1.value := by
    cases entry.item with
    | code text => exact page.prefix_write text
    | alone text => exact page.prefix_write text
    | aligned text =>
      unfold ListStyle.writeItem ListStyle.writeComment
      dsimp only
      split
      · exact (page.prefix_write _).trans (Page.prefix_write _ _)
      · exact page.prefix_write _
  have hboth := (entry.gap.prefix_write style.level page).trans (hitem _)
  unfold ListStyle.writeEntry
  dsimp only
  split
  · exact hboth
  · exact hboth

lemma ListStyle.prefix_pass (style : ListStyle) (entries : List Entry) (page : Page)
    (columns : CommentColumns) : page.value <+: (style.pass entries page columns).1.value := by
  induction entries generalizing page columns with
  | nil => exact List.prefix_rfl
  | cons entry entries ih => exact (style.prefix_writeEntry entry page columns).trans (ih _ _)

lemma PrefixOp.prefix_write (op : PrefixOp) (page : Page) : page.value <+: (op.write page).value := by
  have hapart : page.value <+: (if page.lastChar? == some '&' then page.write [' '] else page).value := by
    split
    · exact page.prefix_write _
    · exact List.prefix_rfl
  cases op with
  | address => exact hapart.trans (Page.prefix_write _ _)
  | unary op =>
    cases op with
    | identity => exact List.prefix_rfl
    | complement => exact hapart.trans (Page.prefix_write _ _)
    | _ => exact page.prefix_write _
  | _ => exact page.prefix_write _

lemma prefix_writeDelimited (level : Nat) (entries : List Entry) (page : Page) :
    page.value <+: (writeDelimited level entries page).value := by
  have hpass := (valueStyle level).prefix_pass entries (page.write ['('])
    ((valueStyle level).measure entries (page.write ['(']))
  exact ((((page.prefix_write _).trans hpass).trans (Page.prefix_write _ _)).trans
    (Page.prefix_write _ _)).trans (Page.prefix_write _ _)

mutual
lemma ExprPlan.prefix_write (level outer : Nat) (tight right : Bool) :
    ∀ (plan : ExprPlan) (page : Page),
      page.value <+: (plan.write level outer tight right page).value := by
  intro plan page
  cases plan with
  | prefixed op operand =>
    rw [ExprPlan.write]
    refine List.IsPrefix.trans ?_ (ExprPlan.prefix_write _ _ _ _ operand _)
    exact op.prefix_write page
  | binary left op operand =>
    rw [ExprPlan.write]
    generalize BinaryStyle.choose op.precedence outer tight right = style
    have hinner (page : Page) : page.value <+: (operand.write level op.precedence style.tight true
        ((left.write level op.precedence style.tight false page).write
          (if style.tight then op.text else ' ' :: op.text ++ [' ']))).value :=
      ((ExprPlan.prefix_write _ _ _ _ left page).trans (Page.prefix_write _ _)).trans
        (ExprPlan.prefix_write _ _ _ _ operand _)
    cases style.parens with
    | true => exact ((page.prefix_write _).trans (hinner _)).trans (Page.prefix_write _ _)
    | false => exact hinner page
  | call names spread args =>
    rw [ExprPlan.write]
    split
    · exact (page.prefix_write _).trans (prefix_writeDelimited level _ _)
    · exact (((page.prefix_write _).trans (Page.prefix_write _ _)).trans
        (prefix_writeInline true args _)).trans (Page.prefix_write _ _)
  | index names subscript =>
    rw [ExprPlan.write]
    exact ((page.prefix_write _).trans (ExprPlan.prefix_write _ _ _ _ subscript _)).trans
      (Page.prefix_write _ _)
  | _ =>
    rw [ExprPlan.write]
    exact page.prefix_write _

lemma prefix_writeInline (first : Bool) : ∀ (values : List ValuePlan) (page : Page),
    page.value <+: (writeInline first page values).value := by
  intro values page
  have hcomma : page.value <+: (if first then page else page.write ", ").value := by
    split
    · exact List.prefix_rfl
    · exact page.prefix_write _
  match values with
  | [] => exact List.prefix_rfl
  | .comment _ _ :: values =>
    rw [writeInline]
    exact prefix_writeInline first values page
  | .dereference _ name :: values =>
    rw [writeInline]
    exact (hcomma.trans (Page.prefix_write _ _)).trans (prefix_writeInline false values _)
  | .value _ value :: values =>
    rw [writeInline]
    exact (hcomma.trans (ExprPlan.prefix_write _ _ _ _ value _)).trans
      (prefix_writeInline false values _)
end

/-- The text on a page goes on with a character that is no blank. -/
def Page.Begins (page after : Page) : Prop :=
  ∃ c, Token.isSpaceChar c = false ∧ page.value ++ [c] <+: after.value

lemma Page.Begins.trans {page after : Page} (h : page.Begins after) {last : Page}
    (hlast : after.value <+: last.value) : page.Begins last := by
  obtain ⟨c, hc, hprefix⟩ := h
  exact ⟨c, hc, hprefix.trans hlast⟩

lemma Page.begins_write (page : Page) {c : Char} (hc : Token.isSpaceChar c = false) (t : Text) :
    page.Begins (page.write (c :: t)) := by
  refine ⟨c, hc, ?_⟩
  rw [Page.value_write]
  exact (List.prefix_append_right_inj _).2 ((List.prefix_cons_inj c).2 List.nil_prefix)

lemma Page.begins_lexeme (page : Page) {kind : TokenKind} {t : Text} (h : IsLexeme kind t)
    (hk : kind ≠ .space) (rest : Text) : page.Begins (page.write (t ++ rest)) := by
  obtain ⟨c, t, rfl⟩ := List.exists_cons_of_ne_nil h.ne_nil
  exact page.begins_write (h.head_not_blank hk) _

lemma Page.begins_names (page : Page) {names : List Text} (h : AreNames names) (rest : Text) :
    page.Begins (page.write (Text.join ['.'] names ++ rest)) := by
  obtain ⟨name, names, rfl⟩ := List.exists_cons_of_ne_nil h.1
  have hjoin : ∃ more, Text.join ['.'] (name :: names) = name ++ more := by
    cases names with
    | nil => exact ⟨[], by simp [Text.join, List.intercalate]⟩
    | cons next names => exact ⟨_, join_cons_cons _ _ _ _⟩
  obtain ⟨more, hmore⟩ := hjoin
  rw [hmore, List.append_assoc]
  exact page.begins_lexeme (h.2 name List.mem_cons_self) (by decide) _

lemma PrefixOp.begins_write {op : PrefixOp} (hop : op ≠ .unary .identity) {page : Page}
    (h : page.lastChar? ≠ some '&') : page.Begins (op.write page) := by
  have hapart : (if page.lastChar? == some '&' then page.write [' '] else page) = page :=
    if_neg (by simpa using h)
  unfold PrefixOp.write
  dsimp only
  rw [hapart]
  cases op with
  | address => exact page.begins_write (by decide) _
  | clone => exact page.begins_write (by decide) _
  | dereference => exact page.begins_write (by decide) _
  | unary op =>
    cases op with
    | identity => exact absurd rfl hop
    | _ => exact page.begins_write (by decide) _

lemma ExprPlan.begins_write (level outer : Nat) (tight right : Bool) (plan : ExprPlan) (hwf : plan.WF)
    {page : Page} (h : page.lastChar? ≠ some '&') :
    page.Begins (plan.write level outer tight right page) := by
  match plan with
  | .prefixed op operand =>
    rw [ExprPlan.WF] at hwf
    rw [ExprPlan.write]
    exact (PrefixOp.begins_write hwf.1 h).trans (ExprPlan.prefix_write _ _ _ _ operand _)
  | .binary left op operand =>
    rw [ExprPlan.WF] at hwf
    rw [ExprPlan.write]
    generalize BinaryStyle.choose op.precedence outer tight right = style
    cases style.parens with
    | true =>
      refine ((page.begins_write (c := '(') (by decide) []).trans ?_).trans (Page.prefix_write _ _)
      exact ((ExprPlan.prefix_write _ _ _ _ left _).trans (Page.prefix_write _ _)).trans
        (ExprPlan.prefix_write _ _ _ _ operand _)
    | false =>
      exact ((ExprPlan.begins_write level _ style.tight false left hwf.1 h).trans
        (Page.prefix_write _ _)).trans (ExprPlan.prefix_write _ _ _ _ operand _)
  | .boolean value =>
    rw [ExprPlan.write]
    cases value <;> exact page.begins_write (by decide) _
  | .call names spread args =>
    rw [ExprPlan.WF] at hwf
    rw [ExprPlan.write]
    have hnames := page.begins_names hwf.1 []
    rw [List.append_nil] at hnames
    split
    · exact hnames.trans ((prefix_writeDelimited level _ _))
    · exact hnames.trans (((Page.prefix_write _ _).trans (prefix_writeInline true args _)).trans
        (Page.prefix_write _ _))
  | .index names subscript =>
    rw [ExprPlan.WF] at hwf
    rw [ExprPlan.write]
    exact ((page.begins_names hwf.1 _).trans (ExprPlan.prefix_write _ _ _ _ subscript _)).trans
      (Page.prefix_write _ _)
  | .literal kind source =>
    rw [ExprPlan.WF] at hwf
    rw [ExprPlan.write]
    have := page.begins_lexeme hwf (by cases kind <;> nofun) []
    rwa [List.append_nil] at this
  | .nil =>
    rw [ExprPlan.write]
    exact page.begins_write (by decide) _
  | .selector names =>
    rw [ExprPlan.WF] at hwf
    rw [ExprPlan.write]
    have := page.begins_names hwf []
    rwa [List.append_nil] at this
  | .zero =>
    rw [ExprPlan.write]
    exact page.begins_write (by decide) _

lemma begins_writeInline {values : List ValuePlan} (hne : values ≠ []) (hwf : ValuesWF values)
    (hflat : areFlat values) {page : Page} (h : page.lastChar? ≠ some '&') :
    page.Begins (writeInline true page values) := by
  obtain ⟨first, values, rfl⟩ := List.exists_cons_of_ne_nil hne
  cases first with
  | comment _ _ => exact Bool.noConfusion hflat
  | dereference _ name =>
    rw [writeInline]
    exact (page.begins_write (by decide) _).trans (prefix_writeInline false values _)
  | value _ value =>
    rw [ValuesWF] at hwf
    rw [writeInline]
    exact (ExprPlan.begins_write 0 0 false false value hwf.1 h).trans (prefix_writeInline false values _)

/-- The characters are the first ones of the tokens of the kinds. -/
def Guard (guards : List Char) (kinds : List TokenKind) : Prop :=
  ∀ kind c t, IsLexeme kind (c :: t) → kinds.contains kind = guards.contains c

lemma lexeme?_parenLeft (rest : Text) : Token.lexeme? ('(' :: rest) = some (.symbol .parenLeft, ['(']) := rfl

lemma lexeme?_braceLeft (rest : Text) :
    Token.lexeme? ('\x7b' :: rest) = some (.symbol .braceLeft, ['\x7b']) := rfl

lemma isLexeme_brace {kind : TokenKind} {c : Char} {t : Text} (h : IsLexeme kind (c :: t)) :
    (kind = .symbol .parenLeft ↔ c = '(') ∧ (kind = .symbol .braceLeft ↔ c = '\x7b') := by
  refine ⟨⟨?_, ?_⟩, ?_, ?_⟩
  · rintro rfl
    exact (List.cons.inj h.shape).1
  · rintro rfl
    rw [IsLexeme, lexeme?_parenLeft] at h
    exact (congrArg Prod.fst (Option.some.inj h)).symm
  · rintro rfl
    exact (List.cons.inj h.shape).1
  · rintro rfl
    rw [IsLexeme, lexeme?_braceLeft] at h
    exact (congrArg Prod.fst (Option.some.inj h)).symm

lemma guard_brace : Guard ['\x7b'] [.symbol .braceLeft] := by
  intro kind c t h
  rw [Bool.eq_iff_iff, List.contains_iff_mem, List.contains_iff_mem, List.mem_singleton,
    List.mem_singleton]
  exact (isLexeme_brace h).2

lemma guard_open : Guard ['(', '\x7b'] [.symbol .parenLeft, .symbol .braceLeft] := by
  intro kind c t h
  rw [Bool.eq_iff_iff, List.contains_iff_mem, List.contains_iff_mem]
  simp only [List.mem_cons, List.not_mem_nil, or_false]
  exact or_congr (isLexeme_brace h).1 (isLexeme_brace h).2

/-- The first piece of a text that starts with no blank is the one of its first character. -/
lemma Scan.startsWith_eq {guards : List Char} {kinds : List TokenKind} (hg : Guard guards kinds)
    {c : Char} {t : Text} {pieces : List Piece} (h : Scan (c :: t) pieces)
    (hc : Token.isSpaceChar c = false) : startsWith kinds pieces = guards.contains c := by
  generalize htext : c :: t = text at h
  cases h with
  | nil => cases htext
  | blank blank scan =>
    obtain ⟨rfl, -⟩ := List.cons.inj htext
    rw [hc] at blank
    cases blank
  | @piece kind text rest pieces lexeme visible apart scan =>
    obtain ⟨d, text, rfl⟩ := List.exists_cons_of_ne_nil lexeme.ne_nil
    obtain ⟨rfl, -⟩ := List.cons.inj htext
    exact hg kind c text lexeme

lemma joins_parenLeft (c : Char) : Symbol.parenLeft.joins c = false := by
  rw [Symbol.joins, Bool.or_eq_false_iff]
  refine ⟨List.any_eq_false.2 fun other _ h => ?_, rfl⟩
  have hjoin : other.spelling = ['(', c] := beq_iff_eq.1 h
  have hhead : other.spelling.head? = some '(' := congrArg List.head? hjoin
  have hlength : other.spelling.length = 2 := congrArg List.length hjoin
  clear h hjoin
  cases other <;> first | exact absurd hhead (by decide) | exact absurd hlength (by decide)

variable {page : Page} {pieces : List Piece}

lemma Page.Spells.write_parens {t : Text} {own : List Piece} {kind : TokenKind}
    (h : page.Spells pieces none) (ht : DpLang.Spells t own (some kind)) (hkind : kind.closes = true)
    (hne : t ≠ []) : (page.write ('(' :: t ++ [')'])).Closed (pieces ++ inParens own) := by
  have hopen := h.write_free (spells_symbol .parenLeft)
  have hinner := hopen.write ht (fun hn => absurd hn hne) fun c _ => follows_symbol (joins_parenLeft c)
  have hclose := (show Page.Closed _ _ from ⟨kind, hkind, hinner⟩).write_closing (s := .parenRight) rfl
  rw [Page.write_append, Page.write_append, List.append_assoc, List.append_assoc] at hclose
  exact hclose

lemma Page.Spells.write_guarded {guards : List Char} {kinds : List TokenKind} (hg : Guard guards kinds)
    (h : page.Spells pieces none) {after : Page} {own : List Piece} (ha : after.Closed own)
    (hb : page.fork.Begins after) :
    (page.write (if after.value.head?.any guards.contains then '(' :: after.value ++ [')']
      else after.value)).Closed (pieces ++ guarded kinds own) := by
  obtain ⟨kind, hkind, hspells⟩ := ha
  obtain ⟨c, hc, t, ht⟩ := hb
  have htext : after.value = c :: t := ht.symm
  have hscan := Spells.scan hspells
  rw [htext] at hscan
  rw [guarded, hscan.startsWith_eq hg hc, htext, List.head?_cons, Option.any_some, ← htext]
  cases guards.contains c with
  | false => exact ⟨kind, hkind, h.write_free hspells⟩
  | true =>
    exact h.write_parens hspells hkind (by rw [htext]; simp)

end Guards

section Statements

variable {page : Page} {pieces more : List Piece} {last : Option TokenKind}

lemma Page.fork_lastChar?_write (page : Page) {t : Text} {c : Char} (ht : t.getLast? = some c)
    (hc : c ≠ '\n') : (page.write t).fork.lastChar? = some c := by
  obtain ⟨front, rfl⟩ := List.getLast?_eq_some_iff.1 ht
  have htail : ((page.write (front ++ [c])).written.takeWhile (· != '\n')).reverse.getLast? = some c := by
    simp [Page.write, hc]
  change (page.write (front ++ [c])).currentLine.getLast? = some c
  unfold Page.currentLine
  dsimp only
  split
  · exact htail
  · rw [List.getLast?_append, htail]
    rfl

lemma Page.fork_blank (page : Page) {t : Text} (ht : t.getLast? = some ' ') :
    (page.write t).fork.lastChar? ≠ some '&' := by
  rw [page.fork_lastChar?_write ht (by decide)]
  decide

lemma ExprPlan.writeGuarded_spells (level : Nat) {value : ExprPlan} (hwf : value.WF)
    (h : page.Spells pieces none) (hfork : page.fork.lastChar? ≠ some '&') :
    (value.writeGuarded level page).Closed (pieces ++ value.guardedPieces) := by
  have hstart : page.fork.Spells [] none := Page.spells_of_value rfl
  have hvalue := value.write_spells level 0 false false hwf hstart opens_none
  have hbegins := value.begins_write level 0 false false hwf hfork
  have hguard := h.write_guarded guard_brace hvalue hbegins
  rw [ExprPlan.writeGuarded]
  have hhead (text : Text) : (text.head? == some '\x7b') = text.head?.any ['\x7b'].contains := by
    cases text with
    | nil => rfl
    | cons c t => exact (Bool.or_false _).symm
  simp only [hhead]
  exact hguard

lemma writeValuesOf_spells (level : Nat) {guards : List Char} {kinds : List TokenKind}
    (hg : Guard guards kinds) {spread : Bool} {values : List ValuePlan} (hne : values ≠ [])
    (hshape : ListShape spread values) (hwf : ValuesWF values) (h : page.Spells pieces none)
    (hfork : page.fork.lastChar? ≠ some '&') :
    (writeValuesOf level guards page spread values).Closed
      (pieces ++ valuesPieces kinds spread values) := by
  rw [writeValuesOf, valuesPieces]
  cases spread with
  | true =>
    exact writeDelimited_spells (valueEntries_spell level values true false hwf hshape.2) h
      (follows_none _)
  | false =>
    have hstart : page.fork.Spells [] none := Page.spells_of_value rfl
    exact h.write_guarded hg (writeInline_spells values hne hwf hshape hstart opens_none)
      (begins_writeInline hne hwf hshape hfork)

lemma writeValuesOf_nil (level : Nat) (guards : List Char) (kinds : List TokenKind) {spread : Bool}
    (hshape : ListShape spread []) (page : Page) :
    writeValuesOf level guards page spread [] = page ∧ valuesPieces kinds spread [] = [] := by
  cases spread with
  | true => exact absurd rfl hshape.1
  | false => exact ⟨page.write_nil, rfl⟩

lemma TargetPlan.write_spells (level : Nat) {target : TargetPlan} (hwf : target.WF)
    (h : page.Spells pieces none) : (target.write level page).Closed (pieces ++ target.pieces) := by
  cases target with
  | dereference name => exact h.write_part (dereference_isPart (follows_none _) hwf)
  | call names spread args => exact ExprPlan.write_spells level 0 false false _ hwf.1 h opens_none
  | index names subscript =>
    have hopen := (h.write_part (names_isPart opens_none hwf.1)).write_symbol .bracketLeft
    have hinner := ExprPlan.write_spells 0 0 true false subscript hwf.2 hopen (opens_symbol _)
    have hclose := hinner.write_closing (s := .bracketRight) rfl
    rw [TargetPlan.write, TargetPlan.pieces]
    rw [Page.write_append] at hclose
    simpa [Symbol.spelling] using hclose
  | selector names => exact h.write_part (names_isPart opens_none hwf)

lemma writeTargetsOf_closed (level : Nat) {targets : List TargetPlan}
    (hwf : ∀ target ∈ targets, target.WF) (h : page.Closed pieces) :
    (writeTargetsOf level false page targets).Closed (pieces ++ targetsPieces false targets) := by
  induction targets generalizing page pieces with
  | nil =>
    rw [writeTargetsOf, targetsPieces, List.append_nil]
    exact h
  | cons target targets ih =>
    rw [List.forall_mem_cons] at hwf
    have hrest := ih hwf.2 (target.write_spells level hwf.1 h.write_comma)
    rw [writeTargetsOf, targetsPieces]
    simpa using hrest

lemma writeTargetsOf_spells (level : Nat) {targets : List TargetPlan} (hne : targets ≠ [])
    (hwf : ∀ target ∈ targets, target.WF) (h : page.Spells pieces none) :
    (writeTargetsOf level true page targets).Closed (pieces ++ targetsPieces true targets) := by
  cases targets with
  | nil => exact absurd rfl hne
  | cons target targets =>
    rw [List.forall_mem_cons] at hwf
    have hrest := writeTargetsOf_closed level hwf.2 (target.write_spells level hwf.1 h)
    rw [writeTargetsOf, targetsPieces]
    simpa using hrest

lemma Page.Closed.pad_symbol (h : page.Closed pieces) (amount : Int) (s : Symbol) :
    ((page.pad amount).write s.spelling).Spells (pieces ++ [symbolPiece s]) (some (.symbol s)) := by
  cases hn : amount.toNat with
  | zero =>
    rw [Page.pad, hn, List.replicate_zero, Page.write_nil]
    exact h.write_symbol s
  | succ n =>
    have hblanks := h.write_blank.write_blanks (t := List.replicate n ' ') fun c hc => by
      rw [List.eq_of_mem_replicate hc]
      decide
    rw [Page.write_append] at hblanks
    rw [Page.pad, hn, List.replicate_succ]
    exact hblanks.write_free (spells_symbol s)

lemma spells_comma : Spells ", " [symbolPiece .comma] none := by
  have hblank : Spells [' '] [] none := spells_blanks (by simp; decide)
  have := (spells_symbol .comma).append hblank (by simp) fun c hc => by
    obtain rfl := Option.some.inj hc
    exact follows_blank nofun nofun
  simpa [Symbol.spelling] using this

lemma writeNames_spells {names : List Text} (hnames : ∀ name ∈ names, IsLexeme .word name)
    (h : page.Spells pieces none) (widths : List Nat) (s : Symbol) :
    (writeRow page [Text.join ", " names, s.spelling] widths).Spells
      (pieces ++ joinedWords .comma names ++ [symbolPiece s]) (some (.symbol s)) := by
  rw [writeRow, writeRow]
  · cases names with
    | nil =>
      have hempty : page.write (Text.join ", " []) = page := page.write_nil
      rw [hempty, show joinedWords .comma [] = [] from rfl, List.append_nil]
      exact (h.pad _).write_free (spells_symbol s)
    | cons name names =>
      rw [List.forall_mem_cons] at hnames
      have hparts : ∀ part ∈ names.map fun w => (w, [wordPiece w]), IsPart none part.1 part.2 := by
        intro part hpart
        obtain ⟨w, hw, rfl⟩ := List.mem_map.1 hpart
        exact isPart_word opens_none (hnames.2 w hw)
      have hjoin := isPart_join spells_comma ⟨',', [' '], rfl, by decide⟩ (name, [wordPiece name])
        (isPart_word opens_none hnames.1) hparts
      have hwords := h.write_part hjoin
      have hsymbol := hwords.pad_symbol ((widths.headD 0 : Int) - (Text.join ", " (name :: names)).length) s
      simpa [joinedWords, Function.comp_def] using hsymbol
  · simp

/-- Behind a statement anything may stand that ends it. -/
def Page.Done (page : Page) (pieces : List Piece) : Prop :=
  ∃ last, (last ≠ some .space ∧ last ≠ some .comment) ∧ page.Spells pieces last

lemma Page.Closed.done (h : page.Closed pieces) : page.Done pieces := by
  obtain ⟨kind, hkind, hspells⟩ := h
  exact ⟨some kind, closes_ne hkind, hspells⟩

lemma Page.Done.of_eq (h : page.Done pieces) (he : pieces = more) : page.Done more := he ▸ h

lemma writeValuesOf_done (level : Nat) {guards : List Char} {kinds : List TokenKind}
    (hg : Guard guards kinds) {spread : Bool} {values : List ValuePlan}
    (hshape : ListShape spread values) (hwf : ValuesWF values) (h : page.Spells pieces none)
    (hfork : page.fork.lastChar? ≠ some '&') :
    (writeValuesOf level guards page spread values).Done
      (pieces ++ valuesPieces kinds spread values) := by
  cases values with
  | nil =>
    obtain ⟨hwrite, hpieces⟩ := writeValuesOf_nil level guards kinds hshape page
    rw [hwrite, hpieces, List.append_nil]
    exact ⟨none, ⟨nofun, nofun⟩, h⟩
  | cons value values => exact (writeValuesOf_spells level hg (by simp) hshape hwf h hfork).done

lemma writeBraces_spells (level : Nat) {entries : List Entry} (he : EntriesSpell false entries more)
    (hempty : more.isEmpty = entries.isEmpty) (h : page.Spells pieces none) :
    (writeBraces level entries page).Closed (pieces ++ inBraces more) := by
  have hopen := h.write_free (spells_symbol .braceLeft)
  rw [writeBraces, inBraces, hempty]
  cases entries.isEmpty with
  | true =>
    have hclose := hopen.write_symbol .braceRight
      (follows_opens (opens_symbol _) (by decide) (by decide) (by decide))
    rw [Page.write_append, List.append_assoc] at hclose
    exact ⟨_, rfl, hclose⟩
  | false =>
    have hlines := (blockStyle level).write_spells he hopen nofun nofun
    have hclose := (hlines.indent (level - 1 : Nat)).write_free (spells_symbol .braceRight)
    have hpieces : pieces ++ (symbolPiece .braceLeft :: (more ++ [linePiece]) ++ [symbolPiece .braceRight]) =
        pieces ++ [symbolPiece .braceLeft] ++ more ++ [linePiece] ++ [symbolPiece .braceRight] := by simp
    refine ⟨.symbol .braceRight, rfl, ?_⟩
    rw [if_neg Bool.false_ne_true, if_neg Bool.false_ne_true, hpieces]
    exact hclose

lemma gap_pieces_ne {gap : Gap} (h : gap ≠ .sameLine) : gap.pieces ≠ [] := by
  cases gap <;> first | exact absurd rfl h | exact List.cons_ne_nil _ _

lemma entriesPieces_isEmpty {afterComment : Bool} {entries : List EntryPlan}
    (h : GapsOk afterComment (entries.map EntryPlan.mark)) :
    (entriesPieces entries).isEmpty = entries.isEmpty := by
  match entries with
  | [] => rfl
  | .comment gap text :: entries => simp [entriesPieces]
  | .statement gap s :: entries =>
    have hgap := gap_pieces_ne fun hs => Bool.noConfusion (h.1 hs).1
    simp [entriesPieces, hgap]

lemma blockEntriesOf_isEmpty (level : Nat) (rows : List (Option (List Nat))) (entries : List EntryPlan) :
    (blockEntriesOf level rows entries).isEmpty = entries.isEmpty := by
  match entries with
  | [] => rfl
  | .comment gap text :: entries => rfl
  | .statement gap s :: entries => rfl

lemma Page.Spells.write_keyword (h : page.Spells pieces none) (k : Keyword) :
    (page.write k.spelling).Closed (pieces ++ [keywordPiece k]) :=
  h.write_part (keyword_isPart opens_none k)

lemma indented_fork (level : Nat) : (Page.indented level).fork.lastChar? ≠ some '&' := by
  change (List.replicate level '\t' ++ []).getLast? ≠ some '&'
  rw [List.append_nil]
  intro h
  exact absurd (List.eq_of_mem_replicate (List.mem_of_getLast? h)) (by decide)

lemma blockBraces_spells (level : Nat) {body : List EntryPlan}
    (hgaps : GapsOk false (body.map EntryPlan.mark))
    (he : EntriesSpell false (blockEntriesOf level (widthsOf (body.map EntryPlan.row)) body)
      (entriesPieces body)) (h : page.Spells pieces none) :
    (writeBlockOf level page body).Closed (pieces ++ inBraces (entriesPieces body)) := by
  refine writeBraces_spells level he ?_ h
  rw [entriesPieces_isEmpty hgaps, blockEntriesOf_isEmpty]

lemma assign_done (level : Nat) (row : Option (List Nat)) {targets : List TargetPlan} {spread : Bool}
    {values : List ValuePlan} (hwf : (StatementPlan.assign targets spread values).WF)
    (h : page.Spells pieces none) :
    ((StatementPlan.assign targets spread values).write level row page).Done
      (pieces ++ (StatementPlan.assign targets spread values).pieces) := by
  rw [StatementPlan.WF] at hwf
  obtain ⟨⟨hne, htargets⟩, hvalues, hshape, hvwf⟩ := hwf
  have htarget := writeTargetsOf_spells (level + 1) hne htargets h
  have hassign := (htarget.write_blank.write_free (spells_symbol .assign)).write_blank nofun nofun
  rw [Page.write_append, Page.write_append] at hassign
  have hvalue := writeValuesOf_done (level + 1) guard_open hshape hvwf hassign (Page.fork_blank _ rfl)
  rw [StatementPlan.write, StatementPlan.pieces]
  exact hvalue.of_eq (by simp)

lemma loopWhile_done (level : Nat) (row : Option (List Nat)) {test : ExprPlan} {body : List EntryPlan}
    (htest : test.WF) (hgaps : GapsOk false (body.map EntryPlan.mark))
    (hbody : ∀ rows, EntriesSpell false (blockEntriesOf (level + 1) rows body) (entriesPieces body))
    (h : page.Spells pieces none) :
    ((StatementPlan.loopWhile test body).write level row page).Done
      (pieces ++ (StatementPlan.loopWhile test body).pieces) := by
  have hfor := (h.write_keyword .forKw).write_blank
  rw [Page.write_append] at hfor
  have hhead := ExprPlan.writeGuarded_spells (level + 1) htest hfor (Page.fork_blank _ rfl)
  have hloop := blockBraces_spells (level + 1) hgaps (hbody _) hhead.write_blank
  rw [StatementPlan.write, StatementPlan.pieces]
  exact hloop.done.of_eq (by simp)

lemma ifElse_done (level : Nat) (row : Option (List Nat)) {test : ExprPlan}
    {thenBody elseBody : List EntryPlan} (htest : test.WF)
    (hthenGaps : GapsOk false (thenBody.map EntryPlan.mark))
    (hthen : ∀ rows, EntriesSpell false (blockEntriesOf (level + 1) rows thenBody) (entriesPieces thenBody))
    (helseGaps : GapsOk false (elseBody.map EntryPlan.mark))
    (helse : ∀ rows, EntriesSpell false (blockEntriesOf (level + 1) rows elseBody) (entriesPieces elseBody))
    (h : page.Spells pieces none) :
    ((StatementPlan.ifElse test thenBody elseBody).write level row page).Done
      (pieces ++ (StatementPlan.ifElse test thenBody elseBody).pieces) := by
  have hif := (h.write_keyword .ifKw).write_blank
  rw [Page.write_append] at hif
  have hhead := ExprPlan.writeGuarded_spells (level + 1) htest hif (Page.fork_blank _ rfl)
  have hbody := blockBraces_spells (level + 1) hthenGaps (hthen _) hhead.write_blank
  rw [StatementPlan.write, StatementPlan.pieces, blockEntriesOf_isEmpty]
  cases he : elseBody.isEmpty with
  | true => exact hbody.done.of_eq (by simp)
  | false =>
    have hkw := ((hbody.write_blank).write_keyword .elseKw).write_blank
    rw [Page.write_append, Page.write_append] at hkw
    exact (blockBraces_spells (level + 1) helseGaps (helse _) hkw).done.of_eq (by simp)

lemma returnValues_done (level : Nat) (row : Option (List Nat)) {spread : Bool} {values : List ValuePlan}
    (hshape : ListShape spread values) (hwf : ValuesWF values) (h : page.Spells pieces none) :
    ((StatementPlan.returnValues spread values).write level row page).Done
      (pieces ++ (StatementPlan.returnValues spread values).pieces) := by
  have hreturn := h.write_keyword .returnKw
  rw [StatementPlan.write, StatementPlan.pieces]
  cases values with
  | nil =>
    obtain ⟨hwrite, hpieces⟩ := writeValuesOf_nil (level + 1) ['\x7b'] [.symbol .braceLeft] hshape
      (page.write "return")
    rw [List.isEmpty_nil, if_pos rfl, hwrite, hpieces]
    exact hreturn.done
  | cons value values =>
    have hblank := hreturn.write_blank
    rw [Page.write_append] at hblank
    have hvalues := writeValuesOf_done (level + 1) guard_brace hshape hwf hblank (Page.fork_blank _ rfl)
    rw [List.append_assoc] at hvalues
    exact hvalues

lemma declare_done (level : Nat) (row : Option (List Nat)) {names : List Text} {type : Option TypeExpr}
    (hnames : ∀ name ∈ names, IsLexeme .word name) (htype : ∀ t ∈ type, t.WF)
    (h : page.Spells pieces none) :
    ((StatementPlan.declare names type).write level row page).Done
      (pieces ++ (StatementPlan.declare names type).pieces) := by
  have hblank := (writeNames_spells hnames h (row.getD []) .colon).write_blank nofun nofun
  rw [StatementPlan.write, StatementPlan.pieces]
  cases type with
  | none =>
    have hauto := hblank.write_keyword .autoKw
    rw [Page.write_append] at hauto
    exact hauto.done.of_eq (by simp)
  | some type =>
    have hpart := hblank.write_part (TypeExpr.text_part (htype type rfl)).free
    rw [Page.write_append] at hpart
    exact hpart.done.of_eq (by simp)

mutual
lemma StatementPlan.write_spells (level : Nat) (row : Option (List Nat)) :
    ∀ s : StatementPlan, s.WF → ∀ {page : Page} {pieces : List Piece}, page.Spells pieces none →
      page.fork.lastChar? ≠ some '&' → (s.write level row page).Done (pieces ++ s.pieces) := by
  intro s hwf page pieces h hfork
  cases s with
  | assign targets spread values => exact assign_done level row hwf h
  | block body =>
    rw [StatementPlan.WF] at hwf
    rw [StatementPlan.write, StatementPlan.pieces]
    exact (blockBraces_spells (level + 1) hwf.1
      (blockEntries_spell (level + 1) body _ false hwf.1 hwf.2) h).done
  | jump kind =>
    cases kind with
    | breakLoop => exact (h.write_keyword .breakKw).done
    | continueLoop => exact (h.write_keyword .continueKw).done
  | expression value =>
    rw [StatementPlan.WF] at hwf
    rw [StatementPlan.write, StatementPlan.pieces]
    exact (ExprPlan.writeGuarded_spells (level + 1) hwf h hfork).done
  | loop body =>
    rw [StatementPlan.WF] at hwf
    have hfor := (h.write_keyword .forKw).write_blank
    rw [Page.write_append] at hfor
    have hbody := blockBraces_spells (level + 1) hwf.1
      (blockEntries_spell (level + 1) body _ false hwf.1 hwf.2) hfor
    rw [List.append_assoc] at hbody
    rw [StatementPlan.write, StatementPlan.pieces]
    exact hbody.done
  | loopWhile test body =>
    rw [StatementPlan.WF] at hwf
    exact loopWhile_done level row hwf.1 hwf.2.1
      (fun rows => blockEntries_spell (level + 1) body rows false hwf.2.1 hwf.2.2) h
  | ifElse test thenBody elseBody =>
    rw [StatementPlan.WF] at hwf
    obtain ⟨htest, hthen, helse⟩ := hwf
    exact ifElse_done level row htest
      hthen.1 (fun rows => blockEntries_spell (level + 1) thenBody rows false hthen.1 hthen.2)
      helse.1 (fun rows => blockEntries_spell (level + 1) elseBody rows false helse.1 helse.2) h
  | returnValues spread values =>
    rw [StatementPlan.WF] at hwf
    exact returnValues_done level row hwf.1 hwf.2 h
  | declare names type =>
    rw [StatementPlan.WF] at hwf
    exact declare_done level row hwf.1 hwf.2 h
  | define names spread values =>
    rw [StatementPlan.WF] at hwf
    have hnames := writeNames_spells hwf.1 h (row.getD []) .define
    have hvalues := writeValuesOf_done (level + 1) guard_open hwf.2.1 hwf.2.2
      (hnames.write_blank nofun nofun) (Page.fork_blank _ rfl)
    rw [StatementPlan.write, StatementPlan.pieces]
    exact hvalues.of_eq (by simp)

lemma blockEntries_spell (level : Nat) : ∀ (entries : List EntryPlan) (rows : List (Option (List Nat)))
    (afterComment : Bool), GapsOk afterComment (entries.map EntryPlan.mark) → EntriesWF entries →
      EntriesSpell afterComment (blockEntriesOf level rows entries) (entriesPieces entries) := by
  intro entries rows afterComment hgaps hwf
  match entries with
  | [] =>
    rw [blockEntriesOf, entriesPieces]
    exact .nil
  | .comment gap text :: entries =>
    rw [EntriesWF] at hwf
    obtain ⟨hgap, hgaps⟩ := hgaps
    have hrest := blockEntries_spell level entries rows.tail true hgaps hwf.2
    rw [blockEntriesOf, entriesPieces]
    exact .comment (fun hg => (hgap hg).2) rfl hwf.1 hrest
  | .statement gap s :: entries =>
    rw [EntriesWF] at hwf
    obtain ⟨hgap, hgaps⟩ := hgaps
    have hrest := blockEntries_spell level entries rows.tail false hgaps hwf.2
    have hstart : (Page.indented level).Spells [] none := Page.spells_of_value rfl
    obtain ⟨last, hlast, hspells⟩ := StatementPlan.write_spells level (rows.head?.getD none) s hwf.1
      hstart (indented_fork level)
    rw [blockEntriesOf, entriesPieces]
    exact .code (fun hg => (hgap hg).2) hspells hlast hrest
end

end Statements

end DpLang
