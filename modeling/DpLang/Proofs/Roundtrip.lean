import DpLang.Proofs.ReadBackExpression
import DpLang.Proofs.Subexpressions

/-!
# Round trip of expressions

The arguments of a call are read back, on one line and on several lines, and with them every
well-formed plan. So the text written for an expression that has been read is read as that expression
again, up to positions, the blanks around comments and identity operators.
-/

namespace DpLang

namespace Parser

variable {x y z : List Piece} {value : ExprPlan} {values : List ValuePlan}

section Values

lemma sees_skim {kind : TokenKind} {c d : Cursor} {t : Token} (h : c.Sees x)
    (hs : c.skim kind = (some t, d)) : ∃ text rest, x = (kind, text) :: rest ∧ d.Sees rest := by
  cases hrest : c.settle.rest with
  | nil =>
    rw [Cursor.skim_of_nil hrest] at hs
    cases hs
  | cons u us =>
    by_cases hkind : u.kind = kind
    · rw [Cursor.skim_of_kind hrest hkind] at hs
      obtain ⟨-, rfl⟩ := Prod.mk.inj hs
      have hpieces := (Cursor.piecesOf_settle hrest).symm.trans h
      rw [hkind] at hpieces
      exact ⟨u.text, _, hpieces.symm, Cursor.piecesOf_dropWhile us⟩
    · rw [Cursor.skim_of_ne hrest hkind] at hs
      cases hs

lemma reads_noDereference (h : ∀ rest, kindsOf x ≠ .symbol .parenLeft :: .word :: .symbol .parenRight :: rest) :
    Reads assignerDereference? x x (· = none) := by
  intro c hc
  refine ⟨none, c, ?_, rfl, hc⟩
  rw [assignerDereference?_run]
  rcases h₁ : c.skim (.symbol .parenLeft) with ⟨_ | _, c₁⟩
  · rfl
  dsimp only
  rcases h₂ : c₁.skim .word with ⟨_ | _, c₂⟩
  · rfl
  dsimp only
  rcases h₃ : c₂.skim (.symbol .parenRight) with ⟨_ | _, c₃⟩
  · rfl
  obtain ⟨_, rest, rfl, hc₁⟩ := sees_skim hc h₁
  obtain ⟨_, rest, rfl, hc₂⟩ := sees_skim hc₁ h₂
  obtain ⟨_, rest, rfl, hc₃⟩ := sees_skim hc₂ h₃
  exact absurd rfl (h (kindsOf rest))

lemma reads_dereference (name : Text) :
    Reads (listValueOf atomic) (inParens [wordPiece name] ++ y) y
      fun n => n.erased = .assignerDereference .unknown name .unknown := by
  have hsome : Reads assignerDereference? (inParens [wordPiece name] ++ y) y
      fun o => ∃ start stop, o = some (.assignerDereference start name stop) := by
    have hget : Reads get (inParens [wordPiece name] ++ y) (inParens [wordPiece name] ++ y)
      fun _ => True := fun c hc => ⟨c, c, rfl, trivial, hc⟩
    refine hget.bind fun before _ => reads_skip.bind fun opened hopened => ?_
    subst hopened
    refine reads_skim.bind fun found hfound => ?_
    obtain ⟨word, rfl, hword⟩ := hfound
    refine reads_skip.bind fun closed hclosed => ?_
    subst hclosed
    exact reads_lastStop.bind fun stop _ => reads_pure ⟨_, stop, by rw [hword]⟩
  refine hsome.bind fun found hfound => ?_
  obtain ⟨start, stop, rfl⟩ := hfound
  exact reads_pure (by rw [Node.erased])

lemma reads_listValue (hwf : value.WF) (h : Readable value) (hy : EndsExpression false y)
    {P : Node → Prop} (hnext : ∀ n, Shows value n → Reads (do
      if !(← skip (.symbol .comma)) then
        if !endsListValue (← peekKind?) then
          reject (← here) (.unexpectedToken "end of expression expected")
      return .expression n) y z P) :
    Reads (listValueOf atomic) (value.pieces 0 false false ++ y) z P := by
  have hopen := (value.opening 0 false false hwf).ne_dereference y
  refine (reads_noDereference hopen).bind fun found hfound => ?_
  subst hfound
  exact (h.whole false false y hy).bind hnext

lemma reads_valueComma (hwf : value.WF) (h : Readable value) (y : List Piece) :
    Reads (listValueOf atomic) (value.pieces 0 false false ++ symbolPiece .comma :: y) y
      fun n => n.erased = .expression value.tree := by
  refine reads_listValue hwf h (endsExpression_closing (by simp) y) fun n hn => ?_
  refine reads_skip.bind fun b hb => ?_
  subst hb
  refine reads_pure ?_
  rw [Node.erased, hn]

lemma reads_valueLast (hwf : value.WF) (h : Readable value) (y : List Piece) :
    Reads (listValueOf atomic) (value.pieces 0 false false ++ symbolPiece .parenRight :: y)
      (symbolPiece .parenRight :: y) fun n => n.erased = .expression value.tree := by
  refine reads_listValue hwf h (endsExpression_closing (by simp) y) fun n hn => ?_
  refine (reads_skipNone (by simp [headKind?, symbolPiece])).bind fun b hb => ?_
  subst hb
  refine reads_peekKind?.bind fun kind hkind => ?_
  subst hkind
  refine reads_pure ?_
  rw [Node.erased, hn]

end Values

section Arguments

/-- The nodes are what the values are made for, up to positions. -/
def ShowsAll (values : List ValuePlan) (nodes : List Node) : Prop :=
  erasedAll nodes = valueTrees values

lemma rejectsAt_value (h : ∀ kind ∈ atomicStarts, headKind? x ≠ some kind) :
    RejectsAt (member (listValueOf atomic)) x := by
  have hvalue : RejectsAt (listValueOf atomic) x := fun c hc => by
    have hstarts := startsNone_of_sees hc h
    exact rejects_listValueOf (hstarts _ (by decide)) (rejects_atomic hstarts)
  exact hvalue.bind _

lemma lineLoop_arguments : LineLoop (argumentsOf atomic) .parenRight := by
  refine lineLoop_of_isLoop [member (listValueOf atomic)] (by decide) isLoop_arguments ?_
  simp only [List.forall_mem_cons]
  exact ⟨fun x => rejectsAt_value (by rw [headKind?_cons]; decide), by simp⟩

lemma reads_argumentsEnd (y : List Piece) :
    Reads (argumentsOf atomic) (symbolPiece .parenRight :: y) y (ShowsAll []) := by
  refine (lineLoop_arguments.ending y).mono fun nodes hnodes => ?_
  rw [hnodes, ShowsAll, erasedAll, valueTrees]

lemma reads_argumentsComment {text : Text} (htext : IsCommentText text) (gap : Gap)
    (h : Reads (argumentsOf atomic) x y (ShowsAll values)) :
    Reads (argumentsOf atomic) (commentPiece text :: x) y (ShowsAll (.comment gap text :: values)) := by
  refine (lineLoop_arguments.comment text h).mono ?_
  rintro _ ⟨start, rest, rfl, hrest⟩
  rw [ShowsAll] at hrest
  rw [ShowsAll, valueTrees, ← hrest, erasedAll, Node.erased, htext.2]

lemma reads_argumentsValue {plan : ValuePlan} {tree : Node}
    (htree : valueTrees (plan :: values) = tree :: valueTrees values)
    (hx : ∀ kind ∉ atomicStarts, headKind? x ≠ some kind)
    (hvalue : Reads (listValueOf atomic) x y fun n => n.erased = tree)
    (h : Reads (argumentsOf atomic) y z (ShowsAll values)) :
    Reads (argumentsOf atomic) x z (ShowsAll (plan :: values)) := by
  refine (reads_loopMember isLoop_arguments [comma, member comment] rfl (hx _ (by decide)) ?_ hvalue h).mono ?_
  · simp only [List.forall_mem_cons]
    exact ⟨rejectsAt_comma (hx _ (by decide)), rejectsAt_comment (hx _ (by decide)), by simp⟩
  rintro _ ⟨n, rest, rfl, hn, hrest⟩
  rw [ShowsAll] at hrest
  rw [ShowsAll, htree, erasedAll, hn, hrest]

def ValuesReadable (values : List ValuePlan) : Prop :=
  ∀ gap value, ValuePlan.value gap value ∈ values → Readable value

lemma ValuesReadable.tail {plan : ValuePlan} (h : ValuesReadable (plan :: values)) :
    ValuesReadable values := fun gap value hv => h gap value (List.mem_cons_of_mem plan hv)

lemma head_ne_dereference (name : Text) (y : List Piece) {kind : TokenKind} (hk : kind ∉ atomicStarts) :
    headKind? (inParens [wordPiece name] ++ y) ≠ some kind := by
  intro heq
  obtain rfl := Option.some.inj heq
  exact hk (by decide)

lemma reads_spread (y : List Piece) : ∀ values : List ValuePlan, ValuesWF values → ValuesReadable values →
    Reads (argumentsOf atomic) (spreadPieces values ++ linePiece :: symbolPiece .parenRight :: y) y
      (ShowsAll values)
  | [], _, _ => lineLoop_arguments.line (reads_argumentsEnd y)
  | .comment gap text :: values, hwf, h => by
    rw [ValuesWF] at hwf
    rw [spreadPieces, List.append_assoc]
    exact lineLoop_arguments.gap
      (reads_argumentsComment hwf.1 gap (reads_spread y values hwf.2 h.tail)) gap
  | .dereference gap name :: values, hwf, h => by
    rw [ValuesWF] at hwf
    have hrest := lineLoop_arguments.comma (reads_spread y values hwf.2 h.tail)
    rw [spreadPieces, List.append_assoc, List.append_assoc]
    exact lineLoop_arguments.gap (reads_argumentsValue (by simp only [valueTrees])
      (fun kind hk => head_ne_dereference name _ hk) (reads_dereference name) hrest) gap
  | .value gap value :: values, hwf, h => by
    rw [ValuesWF] at hwf
    have hvalue := reads_valueComma hwf.1 (h gap value List.mem_cons_self)
      (spreadPieces values ++ linePiece :: symbolPiece .parenRight :: y)
    rw [spreadPieces, List.append_assoc, List.append_assoc]
    exact lineLoop_arguments.gap (reads_argumentsValue (by simp only [valueTrees])
      (fun kind hk => value.head_ne hwf.1 hk _ _ _ _) hvalue (reads_spread y values hwf.2 h.tail)) gap

/-- Behind another value there is a comma in front of values. -/
lemma inlinePieces_false (hflat : areFlat values = true) (hne : values ≠ []) :
    inlinePieces false values = symbolPiece .comma :: inlinePieces true values := by
  match values with
  | [] => exact absurd rfl hne
  | .comment _ _ :: values => exact Bool.noConfusion hflat
  | .dereference _ name :: values => rfl
  | .value _ value :: values => rfl

lemma reads_inline (y : List Piece) : ∀ values : List ValuePlan, ValuesWF values → ValuesReadable values →
    areFlat values = true →
      Reads (argumentsOf atomic) (inlinePieces true values ++ symbolPiece .parenRight :: y) y
        (ShowsAll values)
  | [], _, _, _ => reads_argumentsEnd y
  | .comment _ _ :: values, _, _, hflat => Bool.noConfusion hflat
  | .dereference gap name :: values, hwf, h, hflat => by
    rw [ValuesWF] at hwf
    rw [areFlat] at hflat
    have hrest := reads_inline y values hwf.2 h.tail hflat
    have hnext : Reads (argumentsOf atomic)
        (inlinePieces false values ++ symbolPiece .parenRight :: y) y (ShowsAll values) := by
      by_cases hne : values = []
      · subst hne
        exact hrest
      · rw [inlinePieces_false hflat hne]
        exact lineLoop_arguments.comma hrest
    rw [inlinePieces, List.append_assoc]
    exact reads_argumentsValue (by simp only [valueTrees]) (fun kind hk => head_ne_dereference name _ hk)
      (reads_dereference name) hnext
  | .value gap value :: values, hwf, h, hflat => by
    rw [ValuesWF] at hwf
    rw [areFlat, Bool.and_eq_true] at hflat
    have hvalue := h gap value List.mem_cons_self
    have hrest := reads_inline y values hwf.2 h.tail hflat.2
    have hhead (z : List Piece) (kind : TokenKind) (hk : kind ∉ atomicStarts) :
        headKind? (value.pieces 0 false false ++ z) ≠ some kind := value.head_ne hwf.1 hk _ _ _ _
    rw [inlinePieces, List.append_assoc]
    by_cases hne : values = []
    · subst hne
      exact reads_argumentsValue (by simp only [valueTrees]) (hhead _) (reads_valueLast hwf.1 hvalue y) hrest
    · rw [inlinePieces_false hflat.2 hne]
      exact reads_argumentsValue (by simp only [valueTrees]) (hhead _) (reads_valueComma hwf.1 hvalue _) hrest

lemma readable_call {names : List Text} {spread : Bool} (hwf : (ExprPlan.call names spread values).WF)
    (h : ValuesReadable values) : Readable (.call names spread values) := by
  refine readable_of_atom hwf fun outer tight right y hy => ?_
  rw [ExprPlan.WF] at hwf
  obtain ⟨hnames, hshape, hvalues⟩ := hwf
  have hargs : Reads (argumentsOf atomic)
      ((if spread then spreadPieces values ++ [linePiece] else inlinePieces true values) ++
        symbolPiece .parenRight :: y) y (ShowsAll values) := by
    cases spread with
    | true =>
      rw [if_pos rfl, List.append_assoc]
      exact reads_spread y values hvalues h
    | false => exact reads_inline y values hvalues h hshape
  rw [ExprPlan.pieces, List.append_assoc, inParens, List.cons_append, List.cons_append,
    List.append_assoc]
  refine reads_atomic_at 1 rfl (headKind?_names hnames _) ?_ ?_
  · simp only [atomTable, List.take, List.forall_mem_cons]
    exact ⟨.inl (by decide), by simp⟩
  · have hperiod : headKind? (symbolPiece .parenLeft ::
        ((if spread then spreadPieces values ++ [linePiece] else inlinePieces true values) ++
          symbolPiece .parenRight :: y)) ≠ some (.symbol .period) := by
      simp [headKind?, symbolPiece]
    refine (reads_selectorOnly hnames.1 hperiod).bind fun name hname => ?_
    refine (reads_take _).bind fun _ _ => hargs.bind fun args hshows => ?_
    refine reads_lastStop.bind fun stop _ => reads_pure ?_
    rw [Shows, Node.erased, ExprPlan.tree, Selector.erased, hname, hshows]

end Arguments

section Plans

mutual
lemma readable_of_wf : ∀ plan : ExprPlan, plan.WF → Readable plan := by
  intro plan hwf
  cases plan with
  | prefixed op operand =>
    have hoperand : operand.WF := by rw [ExprPlan.WF] at hwf; exact hwf.2
    exact readable_prefixed hwf (readable_of_wf operand hoperand)
  | binary left op right =>
    have hleft : left.WF := by rw [ExprPlan.WF] at hwf; exact hwf.1
    have hright : right.WF := by rw [ExprPlan.WF] at hwf; exact hwf.2
    exact readable_binary hwf (readable_of_wf left hleft) (readable_of_wf right hright)
  | boolean value => exact readable_boolean value
  | call names spread args =>
    have hargs : ValuesWF args := by rw [ExprPlan.WF] at hwf; exact hwf.2.2
    exact readable_call hwf (valuesReadable_of_wf args hargs)
  | index names subscript =>
    have hsubscript : subscript.WF := by rw [ExprPlan.WF] at hwf; exact hwf.2
    exact readable_index hwf (readable_of_wf subscript hsubscript)
  | literal kind source => exact readable_literal hwf
  | nil => exact readable_nil
  | selector names => exact readable_selector hwf
  | zero => exact readable_zero

lemma valuesReadable_of_wf : ∀ values : List ValuePlan, ValuesWF values → ValuesReadable values := by
  intro values hwf
  match values with
  | [] => exact fun gap value hv => absurd hv List.not_mem_nil
  | .comment _ _ :: values =>
    rw [ValuesWF] at hwf
    intro gap value hv
    rcases List.mem_cons.1 hv with heq | hv
    · cases heq
    · exact valuesReadable_of_wf values hwf.2 gap value hv
  | .dereference _ _ :: values =>
    rw [ValuesWF] at hwf
    intro gap value hv
    rcases List.mem_cons.1 hv with heq | hv
    · cases heq
    · exact valuesReadable_of_wf values hwf.2 gap value hv
  | .value _ first :: values =>
    rw [ValuesWF] at hwf
    intro gap value hv
    rcases List.mem_cons.1 hv with heq | hv
    · cases heq
      exact readable_of_wf first hwf.1
    · exact valuesReadable_of_wf values hwf.2 gap value hv
end

end Plans

end Parser

/-- The node is part of what is read from a text, either as a file or as a single expression. -/
inductive Parsed : Node → Prop where
  | inFile {p : Position} {t : Text} {tokens : List Token} {nodes : List Node} {n : Node}
      (htokens : tokenize p t = .ok tokens) (hparse : parse tokens = .ok nodes)
      (hn : n ∈ Node.walkAll nodes) : Parsed n
  | inExpression {p : Position} {t : Text} {tokens : List Token} {multiline : Bool} {root n : Node}
      {c : Cursor} (htokens : tokenize p t = .ok tokens)
      (hparse : Parser.expression multiline (.ofTokens tokens) = .ok (root, c))
      (hn : n ∈ root.walk) : Parsed n

lemma Parsed.planned {n : Node} (h : Parsed n) : n.Planned := by
  cases h with
  | inFile htokens hparse hn => exact (isFile_of_parse htokens hparse).1.plansWF n hn
  | @inExpression _ _ _ multiline root _ _ htokens hparse hn =>
    obtain ⟨line, hstands⟩ := Parser.stands_ofTokens (lexed_tokenize htokens)
    obtain ⟨-, -, -, -, hroot⟩ := Parser.makes_expression multiline hstands hparse
    exact plansWF_expr root hroot.isExpr hroot.wf n hn

lemma Cursor.Sees.peek?_none {c : Cursor} (h : c.Sees []) : c.peek? = none := by
  have hkind := h.peekKind?
  rw [Cursor.peekKind?] at hkind
  exact Option.map_eq_none_iff.1 hkind

/-- What is written for an expression that has been read, with and without blanks around operators,
is read to its end as the same expression without identity operators. -/
theorem expression_roundtrip {e : Node} (h : Parsed e) (he : e.isExpr = true) (level : Nat)
    (tight : Bool) (lead : Text) (line : Int) (p : Position) :
    ∃ page tokens read c,
      writeExpr level 0 tight false (.behind lead line) e = .ok page ∧
      tokenize p page.value = .ok tokens ∧
      Parser.expression false (.ofTokens tokens) = .ok (read, c) ∧ c.peek? = none ∧
      read.erased = e.withoutIdentity.erased := by
  have hwf := h.planned.exprPlan_wf he
  have hstart : (Page.behind lead line).Spells [] none := Page.spells_of_value rfl
  obtain ⟨kind, -, hspells⟩ := e.exprPlan.write_spells level 0 tight false hwf hstart opens_none
  obtain ⟨tokens, htokens, hpieces⟩ := tokenize_of_scan hspells.scan p
  have hends : Parser.EndsExpression false [] :=
    ⟨fun kind _ => nofun, fun h => Bool.noConfusion h, fun op => nofun⟩
  have hread := (Parser.readable_of_wf e.exprPlan hwf).whole false tight [] hends
  rw [List.append_nil] at hread
  obtain ⟨read, c, hrun, hshows, hrest⟩ := hread (.ofTokens tokens) hpieces
  refine ⟨_, tokens, read, c, writeExpr_eq level 0 tight false _ e he, htokens, hrun,
    hrest.peek?_none, ?_⟩
  rw [hshows, e.tree_exprPlan he]

/-- A call with a comment and a name in parentheses among its arguments. -/
theorem expression_roundtrip_call :
    ∃ source e rest, tokenize (.startOf "f") "a & -+f(b, // c\n(d))" = .ok source ∧
      Parser.expression false (.ofTokens source) = .ok (e, rest) ∧ e.isExpr = true ∧
      ∃ page tokens read c,
        writeExpr 0 0 true false (.behind [] 1) e = .ok page ∧
        tokenize (.startOf "g") page.value = .ok tokens ∧
        Parser.expression false (.ofTokens tokens) = .ok (read, c) ∧ c.peek? = none ∧
        read.erased = e.withoutIdentity.erased := by
  have hrun : ((tokenize (.startOf "f") "a & -+f(b, // c\n(d))").toOption.any fun source =>
      (Parser.expression false (.ofTokens source)).toOption.any fun r => r.1.isExpr) = true := by
    decide +kernel
  cases ht : tokenize (.startOf "f") "a & -+f(b, // c\n(d))" with
  | error report => rw [ht] at hrun; cases hrun
  | ok source =>
    rw [ht] at hrun
    cases hp : Parser.expression false (.ofTokens source) with
    | error failure => simp [Except.toOption, hp] at hrun
    | ok r =>
      obtain ⟨e, rest⟩ := r
      have he : e.isExpr = true := by simpa [Except.toOption, hp] using hrun
      have hself : e ∈ e.walk := by
        cases e with
        | forLoop start test bodyStart body stop => cases he
        | _ => simp [Node.walk]
      exact ⟨source, e, rest, rfl, hp, he,
        expression_roundtrip (.inExpression ht hp hself) he 0 true [] 1 (.startOf "g")⟩

end DpLang
