import DpLang.Proofs.Reading

/-!
# What names, types and expressions are read as

Every parser of a name, a type or an expression that succeeds gives a tree with a well-formed plan.
An expression that starts and stops on the same line is flat.
-/

namespace DpLang.Parser

variable {b : Bool} {c d : Cursor} {l : Int} {kind : TokenKind} {atomic : Parser Node}

section Names

lemma Cursor.AtLineEnd.settle_iff : c.settle.AtLineEnd ↔ c.AtLineEnd := by
  unfold Cursor.AtLineEnd
  rw [Cursor.peekKind?_settle]

lemma atLineEnd_of_skip {x : Bool} (h : c.AtLineEnd) (hp : skip kind c = .ok (x, d))
    (hk : kind ≠ .newline) : d.AtLineEnd := by
  cases x with
  | true => exact absurd h (not_atLineEnd (peekKind?_of_skip hp) hk)
  | false => rw [settle_of_skip hp]; exact Cursor.AtLineEnd.settle_iff.2 h

lemma skipped_reads {x : Bool} (hk : kind.isPlain = true) (h : c.Stands b l)
    (hp : skip kind c = .ok (x, d)) : Passes b c d l l [] := by
  have hpass := skipPlain_reads hk h hp
  cases x with
  | false => simpa using hpass
  | true => rw [Bool.or_true] at hpass; exact hpass.weaken

lemma nameParts_reads {fuel : Nat} {names : List Text} (h : c.Stands b l)
    (hp : nameParts fuel c = .ok (names, d)) :
    ¬c.AtLineEnd ∧ AreNames names ∧ Passes true c d l l [] := by
  induction fuel generalizing b c names with
  | zero => cases hp
  | succ fuel ih =>
    rw [nameParts] at hp
    obtain ⟨word, c1, hw, hp⟩ := bind_ok_iff.1 hp
    obtain ⟨hword, hpass⟩ := takePlain_reads rfl h hw
    refine ⟨not_atLineEnd (peekKind?_of_take hw) nofun, ?_⟩
    obtain ⟨x, c2, hx, hp⟩ := bind_ok_iff.1 hp
    have hpass2 := hpass.trans (skipPlain_reads rfl hpass.stands hx)
    cases x with
    | true =>
      obtain ⟨others, hothers, rfl⟩ := bind_pure_ok hp
      obtain ⟨-, hnames, hpass3⟩ := ih hpass2.stands hothers
      exact ⟨⟨List.cons_ne_nil _ _, List.forall_mem_cons.2 ⟨hword.lexeme, hnames.2⟩⟩,
        hpass2.trans hpass3⟩
    | false =>
      obtain ⟨rfl, rfl⟩ := pure_ok_iff.1 hp
      exact ⟨⟨List.cons_ne_nil _ _, by simpa using hword.lexeme⟩, hpass2⟩

lemma qualifiedName_reads {name : QualifiedName} (h : c.Stands b l)
    (hp : qualifiedName c = .ok (name, d)) :
    ¬c.AtLineEnd ∧ IsQualifiedName name ∧ Passes true c d l l [] := by
  obtain ⟨rooted, c1, hr, hp⟩ := bind_ok_iff.1 hp
  obtain ⟨parts, hparts, rfl⟩ := bind_pure_ok hp
  have hpass := skipPlain_reads rfl h hr
  obtain ⟨hline, hnames, hpass2⟩ := nameParts_reads hpass.stands hparts
  refine ⟨fun hc => hline (atLineEnd_of_skip hc hr nofun), ⟨parts, hnames, ?_⟩, hpass.trans hpass2⟩
  cases rooted
  · exact .inl rfl
  · exact .inr rfl

lemma makes_identifier : Makes (fun n => ∃ start name stop, n = .identifier start name stop ∧
    IsQualifiedName name) identifier := by
  intro b c l n d h hp
  replace hp := of_here_bind hp
  obtain ⟨name, c2, hname, hp⟩ := bind_ok_iff.1 hp
  obtain ⟨hline, hq, hpass⟩ := qualifiedName_reads h.settle hname
  obtain ⟨stop, hstop, rfl, rfl⟩ := lastStop_bind_ok hpass.stands hp
  exact ⟨fun hc => hline (Cursor.AtLineEnd.settle_iff.2 hc), rfl, l, (Passes.settle h).trans hpass,
    Node.spans_of_line h.position hstop (Int.le_refl l), _, _, _, rfl, hq⟩

lemma fieldNames_reads {fuel : Nat} {names : List Text} (h : c.Stands true l)
    (hp : fieldNames fuel c = .ok (names, d)) :
    (∀ name ∈ names, IsLexeme .word name) ∧ Passes true c d l l [] := by
  induction fuel generalizing c names with
  | zero => cases hp
  | succ fuel ih =>
    rw [fieldNames] at hp
    obtain ⟨x, c1, hx, hp⟩ := bind_ok_iff.1 hp
    have hpass := skipPlain_reads rfl h hx
    cases x with
    | true =>
      obtain ⟨word, c2, hw, hp⟩ := bind_ok_iff.1 hp
      obtain ⟨hword, hpass2⟩ := takePlain_reads rfl hpass.stands hw
      obtain ⟨others, hothers, rfl⟩ := bind_pure_ok hp
      obtain ⟨hnames, hpass3⟩ := ih hpass2.stands hothers
      exact ⟨List.forall_mem_cons.2 ⟨hword.lexeme, hnames⟩, (hpass.trans hpass2).trans hpass3⟩
    | false =>
      obtain ⟨rfl, rfl⟩ := pure_ok_iff.1 hp
      exact ⟨by simp, hpass⟩

lemma selectorOnly_reads {s : Selector} (h : c.Stands b l) (hp : selectorOnly c = .ok (s, d)) :
    ¬c.AtLineEnd ∧ AreNames s.names ∧ s.start.line = l ∧ s.stop.line = l ∧
      Passes true c d l l [] := by
  replace hp := of_here_bind hp
  obtain ⟨word, c2, hw, hp⟩ := bind_ok_iff.1 hp
  obtain ⟨hword, hpass⟩ := takePlain_reads rfl h.settle hw
  obtain ⟨names, c3, hnames, hp⟩ := bind_ok_iff.1 hp
  obtain ⟨hn, hpass2⟩ := fieldNames_reads hpass.stands hnames
  obtain ⟨stop, hstop, rfl, rfl⟩ := lastStop_bind_ok hpass2.stands hp
  refine ⟨?_, ⟨List.cons_ne_nil _ _, List.forall_mem_cons.2 ⟨hword.lexeme, hn⟩⟩, h.position, hstop,
    ((Passes.settle h).trans hpass).trans hpass2⟩
  exact fun hc => not_atLineEnd (peekKind?_of_take hw) nofun (Cursor.AtLineEnd.settle_iff.2 hc)

lemma typeFlags_reads {flags : TypeFlags} (h : c.Stands b l) (hp : typeFlags c = .ok (flags, d)) :
    (c.AtLineEnd → d.AtLineEnd) ∧ Passes b c d l l [] := by
  obtain ⟨x1, c1, h1, hp⟩ := bind_ok_iff.1 hp
  obtain ⟨x2, c2, h2, hp⟩ := bind_ok_iff.1 hp
  obtain ⟨x3, c3, h3, hp⟩ := bind_ok_iff.1 hp
  obtain ⟨x4, h4, rfl⟩ := bind_pure_ok hp
  have hp1 := skipped_reads rfl h h1
  have hp2 := hp1.trans (skipped_reads rfl hp1.stands h2)
  have hp3 := hp2.trans (skipped_reads rfl hp2.stands h3)
  have hp4 := hp3.trans (skipped_reads rfl hp3.stands h4)
  refine ⟨fun hc => ?_, hp4⟩
  have hc1 := atLineEnd_of_skip hc h1 nofun
  have hc2 := atLineEnd_of_skip hc1 h2 nofun
  have hc3 := atLineEnd_of_skip hc2 h3 nofun
  exact atLineEnd_of_skip hc3 h4 nofun

lemma typeWithin_reads {fuel : Nat} {type : TypeExpr} (h : c.Stands b l)
    (hp : typeWithin fuel c = .ok (type, d)) :
    ¬c.AtLineEnd ∧ type.WF ∧ Passes true c d l l [] := by
  induction fuel generalizing b c d type with
  | zero => cases hp
  | succ fuel ih =>
    rw [typeWithin] at hp
    obtain ⟨flags, c1, hflags, hp⟩ := bind_ok_iff.1 hp
    obtain ⟨hline, hpass⟩ := typeFlags_reads h hflags
    obtain ⟨x, c2, hx, hp⟩ := bind_ok_iff.1 hp
    have hpass2 := hpass.trans (skipPlain_reads rfl hpass.stands hx)
    cases x with
    | true =>
      obtain ⟨item, c3, hitem, hp⟩ := bind_ok_iff.1 hp
      obtain ⟨-, hwf, hpass3⟩ := ih hpass2.stands hitem
      obtain ⟨t, c4, ht, hp⟩ := bind_ok_iff.1 hp
      obtain ⟨-, hpass4⟩ := takePlain_reads rfl hpass3.stands ht
      obtain ⟨rfl, rfl⟩ := pure_ok_iff.1 hp
      refine ⟨fun hc => ?_, hwf, (hpass2.trans hpass3).trans hpass4⟩
      exact not_atLineEnd (peekKind?_of_skip hx) nofun (hline hc)
    | false =>
      obtain ⟨name, c3, hname, hp⟩ := bind_ok_iff.1 hp
      obtain ⟨hend, hq, hpass3⟩ := qualifiedName_reads hpass2.stands hname
      obtain ⟨rfl, rfl⟩ := pure_ok_iff.1 hp
      exact ⟨fun hc => hend (atLineEnd_of_skip (hline hc) hx nofun), hq, hpass2.trans hpass3⟩

lemma typeSpec_reads {spec : TypeSpec} (h : c.Stands b l) (hp : typeSpec c = .ok (spec, d)) :
    ¬c.AtLineEnd ∧ spec.type.WF ∧ spec.start.line = l ∧ spec.stop.line = l ∧
      Passes true c d l l [] := by
  replace hp := of_here_bind hp
  obtain ⟨type, c2, htype, hp⟩ := bind_ok_iff.1 hp
  obtain ⟨hline, hwf, hpass⟩ := typeWithin_reads h.settle htype
  obtain ⟨stop, hstop, rfl, rfl⟩ := lastStop_bind_ok hpass.stands hp
  exact ⟨fun hc => hline (Cursor.AtLineEnd.settle_iff.2 hc), hwf, h.position, hstop,
    (Passes.settle h).trans hpass⟩

end Names

section Expressions

/-- An expression with a well-formed plan, flat if it starts and stops on one line. -/
structure IsExpression (n : Node) : Prop where
  isExpr : n.isExpr = true
  wf : n.exprPlan.WF
  flat : n.start.line = n.stop.line → n.exprPlan.isFlat = true

lemma IsExpression.not_comment {n : Node} (h : IsExpression n) : n.isComment = false := by
  cases n with
  | comment => cases h.isExpr
  | _ => rfl

/-- A parser of expressions. Only if it reads over several lines, it may start at the end of one. -/
def MakesExpression (multiline : Bool) (p : Parser Node) : Prop :=
  ∀ ⦃b c l n d⦄, c.Stands b l → p c = .ok (n, d) →
    (multiline = false → ¬c.AtLineEnd) ∧
      ∃ m, Passes true c d l m n.comments ∧ n.Spans l m ∧ IsExpression n

lemma Makes.makesExpression {p : Parser Node} (h : Makes IsExpression p) :
    MakesExpression false p := by
  intro b c l n d hc hn
  obtain ⟨hline, -, m, hpass, hspan, he⟩ := h hc hn
  exact ⟨fun _ => hline, m, hpass, hspan, he⟩

variable {multiline : Bool}

lemma skipNewlinesWithin_reads {fuel : Nat} {x : Unit} (h : c.Stands b l)
    (hp : skipNewlinesWithin fuel c = .ok (x, d)) : ∃ m, Passes b c d l m [] := by
  induction fuel generalizing b c l with
  | zero =>
    obtain ⟨-, rfl⟩ := pure_ok_iff.1 hp
    exact ⟨l, h, Int.le_refl l, rfl⟩
  | succ fuel ih =>
    rw [skipNewlinesWithin] at hp
    obtain ⟨x, c1, hx, hp⟩ := bind_ok_iff.1 hp
    obtain ⟨o, hskim, rfl⟩ := bind_pure_ok hx
    have hs := skim_reads h hskim
    cases o with
    | none =>
      obtain ⟨-, rfl⟩ := pure_ok_iff.1 hp
      exact ⟨l, hs.1⟩
    | some t =>
      obtain ⟨hfound, hpass, -⟩ := hs
      have hcomment : t.commentText = [] := if_neg (by rw [hfound.isKind]; decide)
      rw [hcomment] at hpass
      obtain ⟨m, hpass2⟩ := ih hpass.stands hp
      exact ⟨m, (hpass.trans hpass2).weaken⟩

lemma skipNewlinesIf_reads {x : Unit} (h : c.Stands b l)
    (hp : skipNewlinesIf multiline c = .ok (x, d)) :
    ∃ m, Passes b c d l m [] ∧ (multiline = false → d = c) := by
  cases multiline with
  | true =>
    obtain ⟨m, hpass⟩ := skipNewlinesWithin_reads h hp
    exact ⟨m, hpass, by simp⟩
  | false =>
    obtain ⟨-, rfl⟩ := pure_ok_iff.1 hp
    exact ⟨l, ⟨h, Int.le_refl l, rfl⟩, fun _ => rfl⟩

lemma infixOperator?_reads {o : Option BinaryOp} (h : c.Stands b l)
    (hp : infixOperator? c = .ok (o, d)) : Passes b c d l l [] := by
  replace hp := of_peekKind?_bind hp
  have hs := Passes.settle h
  have hnone (hp : (pure none : Parser (Option BinaryOp)) c.settle = .ok (o, d)) :
      Passes b c d l l [] := by
    obtain ⟨-, rfl⟩ := pure_ok_iff.1 hp
    exact hs
  generalize c.peekKind? = kind at hp
  rcases kind with _ | kind
  · exact hnone hp
  cases kind with
  | symbol s =>
    dsimp only at hp
    cases hop : BinaryOp.ofSymbol? s with
    | none => rw [hop] at hp; exact hnone hp
    | some op =>
      rw [hop] at hp
      obtain ⟨x, c2, hx, hp⟩ := bind_ok_iff.1 hp
      obtain ⟨-, rfl⟩ := pure_ok_iff.1 hp
      exact hs.trans (skipped_reads rfl hs.stands hx)
  | _ => exact hnone hp

lemma tightOperator?_reads {o : Option BinaryOp} (h : c.Stands b l)
    (hp : tightOperator? multiline c = .ok (o, d)) : ∃ m, Passes b c d l m [] := by
  rw [tightOperator?_run] at hp
  cases hrun : (skipNewlinesIf multiline >>= fun _ => infixOperator?) c with
  | error e => rw [hrun] at hp; cases hp
  | ok r =>
    obtain ⟨op, c2⟩ := r
    rw [hrun] at hp
    obtain ⟨x, c1, hx, hop⟩ := bind_ok_iff.1 hrun
    obtain ⟨m, hpass, -⟩ := skipNewlinesIf_reads h hx
    have hback (hp : (Except.ok (none, c) : Except Failure (Option BinaryOp × Cursor)) = .ok (o, d)) :
        ∃ m, Passes b c d l m [] := by
      obtain ⟨rfl, rfl⟩ := Prod.mk.inj (Except.ok.inj hp)
      exact ⟨l, h, Int.le_refl l, rfl⟩
    cases op with
    | none => exact hback hp
    | some op =>
      dsimp only at hp
      split_ifs at hp with hmax
      · obtain ⟨rfl, rfl⟩ := Prod.mk.inj (Except.ok.inj hp)
        exact ⟨m, hpass.trans (infixOperator?_reads hpass.stands hop)⟩
      · exact hback hp

lemma isExpression_binary {left right : Node} (op : BinaryOp) {stop : Position} {k m : Int}
    (hl : IsExpression left) (hr : IsExpression right) (hls : left.Spans k l)
    (hrs : right.Spans l m) (hstop : stop.line = m) :
    IsExpression (.binary left op right stop) ∧ (Node.binary left op right stop).Spans k m := by
  have h1 := hls.start
  have h2 := hls.le
  have h3 := hls.stop
  have h4 := hrs.start
  have h5 := hrs.le
  have h6 := hrs.stop
  refine ⟨⟨?_, ⟨hl.wf, hr.wf⟩, fun hline => ?_⟩, h1, ?_, Int.le_of_eq hstop⟩
  · rw [Node.isExpr, hl.isExpr, hr.isExpr]
    rfl
  · have hline : left.start.line = stop.line := hline
    rw [Node.exprPlan, ExprPlan.isFlat, hl.flat (by omega), hr.flat (by omega)]
    rfl
  · show left.start.line ≤ stop.line
    omega

lemma comments_binary (left right : Node) (op : BinaryOp) (stop : Position) :
    (Node.binary left op right stop).comments = left.comments ++ right.comments := by
  rw [Node.comments_of_children rfl, Node.children, commentsIn_cons, commentsIn_singleton]

lemma operandAfter_reads (ha : MakesExpression false atomic) {fuel : Nat} {left n : Node} {k : Int}
    (h : c.Stands true l) (hleft : IsExpression left) (hspan : left.Spans k l)
    (hp : operandAfter atomic multiline left fuel c = .ok (n, d)) :
    ∃ m texts, Passes true c d l m texts ∧ n.comments = left.comments ++ texts ∧ n.Spans k m ∧
      IsExpression n := by
  induction fuel generalizing c l left with
  | zero => cases hp
  | succ fuel ih =>
    rw [operandAfter] at hp
    obtain ⟨o, c1, ho, hp⟩ := bind_ok_iff.1 hp
    obtain ⟨m1, hpass1⟩ := tightOperator?_reads h ho
    have hspan1 := hspan.mono hpass1.le
    cases o with
    | none =>
      obtain ⟨rfl, rfl⟩ := pure_ok_iff.1 hp
      exact ⟨m1, [], hpass1, by simp, hspan1, hleft⟩
    | some op =>
      obtain ⟨x, c2, hx, hp⟩ := bind_ok_iff.1 hp
      obtain ⟨m2, hpass2, -⟩ := skipNewlinesIf_reads hpass1.stands hx
      obtain ⟨right, c3, hright, hp⟩ := bind_ok_iff.1 hp
      obtain ⟨-, m3, hpass3, hrspan, hr⟩ := ha hpass2.stands hright
      replace hp := of_lastStop_bind hp
      obtain ⟨hbin, hbspan⟩ := isExpression_binary op hleft hr (hspan1.mono hpass2.le) hrspan
        (hpass3.stands.last rfl)
      obtain ⟨m, texts, hpass, htexts, hnspan, hn⟩ := ih hpass3.stands hbin hbspan hp
      refine ⟨m, right.comments ++ texts, ?_, ?_, hnspan, hn⟩
      · exact ((hpass1.trans hpass2).trans hpass3).trans hpass
      · rw [htexts, comments_binary, List.append_assoc]

lemma makes_operandOf (ha : MakesExpression false atomic) :
    MakesExpression false (operandOf atomic multiline) := by
  intro b c l n d h hp
  obtain ⟨first, c1, hfirst, hp⟩ := bind_ok_iff.1 hp
  obtain ⟨hline, m1, hpass1, hspan, hf⟩ := ha h hfirst
  obtain ⟨m, texts, hpass, htexts, hnspan, hn⟩ := operandAfter_reads ha hpass1.stands hf hspan hp
  exact ⟨hline, m, htexts ▸ hpass1.trans hpass, hnspan, hn⟩

lemma isExpression_joined {before : Option (Node × BinaryOp)} {right : Node} {stop : Position}
    {k m : Int} (hkl : k ≤ l) (hbefore : ∀ x ∈ before, IsExpression x.1 ∧ x.1.Spans k l)
    (hr : IsExpression right) (hrs : right.Spans l m) (hstop : stop.line = m) :
    IsExpression (joined before right stop) ∧ (joined before right stop).Spans k m ∧
      (joined before right stop).comments =
        before.toList.flatMap (·.1.comments) ++ right.comments := by
  cases before with
  | none => exact ⟨hr, ⟨Int.le_trans hkl hrs.start, hrs.le, hrs.stop⟩, rfl⟩
  | some x =>
    obtain ⟨left, op⟩ := x
    obtain ⟨hexpr, hspan⟩ := hbefore (left, op) rfl
    obtain ⟨hbin, hbspan⟩ := isExpression_binary op hexpr hr hspan hrs hstop
    exact ⟨hbin, hbspan, by simp [joined, comments_binary]⟩

lemma chainAfter_reads {operand : Parser Node} (ha : MakesExpression false operand) {fuel : Nat}
    {before : Option (Node × BinaryOp)} {n : Node} {k : Int} (h : c.Stands b l) (hkl : k ≤ l)
    (hbefore : ∀ x ∈ before, IsExpression x.1 ∧ x.1.Spans k l)
    (hp : chainAfter operand multiline fuel before c = .ok (n, d)) :
    (multiline = false → ¬c.AtLineEnd) ∧ ∃ m texts, Passes true c d l m texts ∧
      n.comments = before.toList.flatMap (·.1.comments) ++ texts ∧ n.Spans k m ∧
        IsExpression n := by
  induction fuel generalizing b c l before with
  | zero => cases hp
  | succ fuel ih =>
    rw [chainAfter_succ] at hp
    obtain ⟨x, c1, hx, hp⟩ := bind_ok_iff.1 hp
    obtain ⟨m1, hpass1, hsame⟩ := skipNewlinesIf_reads h hx
    obtain ⟨right, c2, hright, hp⟩ := bind_ok_iff.1 hp
    obtain ⟨hline, m2, hpass2, hrspan, hr⟩ := ha hpass1.stands hright
    refine ⟨fun hm => by rw [← hsame hm]; exact hline rfl, ?_⟩
    replace hp := of_lastStop_bind hp
    obtain ⟨hlexpr, hlspan, hlcomments⟩ := isExpression_joined (Int.le_trans hkl hpass1.le)
      (fun x hx => ⟨(hbefore x hx).1, (hbefore x hx).2.mono hpass1.le⟩) hr hrspan
      (hpass2.stands.last rfl)
    generalize joined before right c2.last = left at hp hlexpr hlspan hlcomments
    obtain ⟨x, c4, hx, hp⟩ := bind_ok_iff.1 hp
    obtain ⟨m3, hpass3, -⟩ := skipNewlinesIf_reads hpass2.stands hx
    obtain ⟨o, c5, ho, hp⟩ := bind_ok_iff.1 hp
    have hpass4 := hpass3.trans (infixOperator?_reads hpass3.stands ho)
    have hlspan3 := hlspan.mono hpass3.le
    have hpass := (hpass1.trans hpass2).trans hpass4
    cases o with
    | none =>
      obtain ⟨rfl, rfl⟩ := pure_ok_iff.1 hp
      exact ⟨m3, _, hpass, by simp [hlcomments], hlspan3, hlexpr⟩
    | some op =>
      have hnext : chainAfter operand multiline fuel (some (left, op)) c5 = .ok (n, d) := by
        dsimp only at hp
        split_ifs at hp with hmixed
        · obtain ⟨position, e, -, hp⟩ := bind_ok_iff.1 hp
          exact absurd hp not_reject_bind_ok
        · exact hp
      obtain ⟨-, m, texts, hpass5, htexts, hspan, hn⟩ := ih hpass4.stands
        (Int.le_trans hlspan3.start (Int.le_trans hlspan3.le hlspan3.stop)) (by simp [hlexpr, hlspan3]) hnext
      refine ⟨m, _, hpass.trans hpass5, ?_, hspan, hn⟩
      rw [htexts]
      simp [hlcomments]

lemma makes_expressionOf (ha : MakesExpression false atomic) :
    MakesExpression multiline (expressionOf atomic multiline) := by
  intro b c l n d h hp
  obtain ⟨hline, m, texts, hpass, htexts, hspan, hn⟩ :=
    chainAfter_reads (makes_operandOf ha) h (Int.le_refl l) (by simp) hp
  exact ⟨hline, m, by rw [htexts]; exact hpass, hspan, hn⟩

end Expressions

section Values

/-- A member of a list of values. -/
def IsValue : Node → Prop
  | .comment _ source => IsLexeme .comment source
  | .assignerDereference _ name _ => IsLexeme .word name
  | .expression value => IsExpression value
  | _ => False

variable {nodes : List Node}

lemma areValues_of_isValue (h : ∀ n ∈ nodes, IsValue n) : areValues nodes = true := by
  induction nodes with
  | nil => rfl
  | cons n nodes ih =>
    obtain ⟨hn, hnodes⟩ := List.forall_mem_cons.1 h
    cases n with
    | comment => exact ih hnodes
    | assignerDereference => exact ih hnodes
    | expression value =>
      rw [areValues, ih hnodes, IsExpression.isExpr hn]
      rfl
    | _ => exact hn.elim

lemma valuesWF_valuePlans (h : ∀ n ∈ nodes, IsValue n) (spread : Bool) (previous : Int) :
    ValuesWF (valuePlans spread previous nodes) := by
  induction nodes generalizing previous with
  | nil => trivial
  | cons n nodes ih =>
    obtain ⟨hn, hnodes⟩ := List.forall_mem_cons.1 h
    cases n with
    | comment => exact ⟨isCommentText_strip hn, ih hnodes _⟩
    | assignerDereference => exact ⟨hn, ih hnodes _⟩
    | expression value => exact ⟨IsExpression.wf hn, ih hnodes _⟩
    | _ => exact hn.elim

lemma areFlat_valuePlans (h : ∀ n ∈ nodes, IsValue n)
    (hflat : ∀ n ∈ nodes, n.isComment = false ∧ n.start.line = n.stop.line) (spread : Bool)
    (previous : Int) : areFlat (valuePlans spread previous nodes) = true := by
  induction nodes generalizing previous with
  | nil => rfl
  | cons n nodes ih =>
    obtain ⟨hn, hnodes⟩ := List.forall_mem_cons.1 h
    obtain ⟨hf, hrest⟩ := List.forall_mem_cons.1 hflat
    cases n with
    | comment => cases hf.1
    | assignerDereference => exact ih hnodes hrest _
    | expression value =>
      rw [valuePlans, areFlat, ih hnodes hrest, IsExpression.flat hn hf.2]
      rfl
    | _ => exact hn.elim

lemma gapsOk_valuePlans {pending : Bool} {m : Int} (h : ∀ n ∈ nodes, IsValue n)
    (hc : Chained l pending m nodes) :
    GapsOk pending ((valuePlans true l nodes).map ValuePlan.mark) := by
  induction nodes generalizing l pending with
  | nil => trivial
  | cons n nodes ih =>
    obtain ⟨hn, hnodes⟩ := List.forall_mem_cons.1 h
    obtain ⟨-, hp, -, hrest⟩ := hc
    have hgap : Gap.within true l n = .sameLine → n.isComment = true ∧ pending = false := by
      intro hg
      obtain ⟨hline, hcomment⟩ := Gap.before_eq_sameLine.1 hg
      refine ⟨hcomment, Bool.eq_false_iff.2 fun hpending => ?_⟩
      have := hp hpending
      omega
    cases n with
    | comment => exact ⟨hgap, ih hnodes hrest⟩
    | assignerDereference => exact ⟨hgap, ih hnodes hrest⟩
    | expression value => exact ⟨hgap, ih hnodes hrest⟩
    | _ => exact hn.elim

lemma valuePlans_eq_nil (h : ∀ n ∈ nodes, IsValue n) {spread : Bool} {previous : Int} :
    valuePlans spread previous nodes = [] ↔ nodes = [] := by
  cases nodes with
  | nil => exact ⟨fun _ => rfl, fun _ => rfl⟩
  | cons n nodes =>
    have hn := h n List.mem_cons_self
    cases n with
    | comment => simp [valuePlans]
    | assignerDereference => simp [valuePlans]
    | expression value => simp [valuePlans]
    | _ => exact hn.elim

/-- A list of values that starts on a line, or behind it, has the shape it is written in. -/
lemma listShape_valuePlans {k m : Int} (h : ∀ n ∈ nodes, IsValue n) (hkl : k ≤ l)
    (hc : Chained l false m nodes) :
    ListShape (spansLines k nodes) (valuePlans (spansLines k nodes) k nodes) := by
  unfold ListShape
  cases hs : spansLines k nodes with
  | true =>
    refine ⟨fun hnil => ?_, gapsOk_valuePlans h (hc.mono hkl (by simp))⟩
    rw [valuePlans_eq_nil h] at hnil
    rw [hnil] at hs
    cases hs
  | false =>
    refine areFlat_valuePlans h (fun n hn => ?_) _ _
    have hspan := (hc.spans n hn).1
    have hno := List.any_eq_false.1 hs n hn
    simp only [Bool.or_eq_true, decide_eq_true_eq, not_or, Bool.not_eq_true] at hno
    have := hspan.start
    have := hspan.le
    exact ⟨hno.2, by omega⟩

lemma comments_expression (n : Node) : (Node.expression n).comments = n.comments :=
  (Node.comments_of_children rfl).trans (commentsIn_singleton n)

lemma comments_call (name : Selector) (args : List Node) (stop : Position) :
    (Node.call name args stop).comments = commentsIn args :=
  Node.comments_of_children rfl

lemma comments_index (name : Selector) (subscript : Node) (stop : Position) :
    (Node.index name subscript stop).comments = subscript.comments :=
  (Node.comments_of_children rfl).trans (commentsIn_singleton subscript)

lemma comments_prefixed (start : Position) (op : PrefixOp) (operand : Node) (stop : Position) :
    (Node.prefixed start op operand stop).comments = operand.comments :=
  (Node.comments_of_children rfl).trans (commentsIn_singleton operand)

lemma assignerDereference?_reads {o : Option Node} (h : c.Stands b l)
    (hp : assignerDereference? c = .ok (o, d)) :
    match o with
    | none => d = c
    | some n => ¬c.AtLineEnd ∧ Passes true c d l l [] ∧
        ∃ start name stop, n = .assignerDereference start name stop ∧ IsLexeme .word name ∧
          start.line = l ∧ stop.line = l := by
  rw [assignerDereference?_run] at hp
  have hback (hp : (Except.ok (none, c) : Except Failure (Option Node × Cursor)) = .ok (o, d)) :
      o = none ∧ d = c := by
    obtain ⟨rfl, rfl⟩ := Prod.mk.inj (Except.ok.inj hp)
    exact ⟨rfl, rfl⟩
  rcases h1 : c.skim (.symbol .parenLeft) with ⟨_ | t1, c1⟩
  · rw [h1] at hp
    obtain ⟨rfl, rfl⟩ := hback hp
    rfl
  rw [h1] at hp
  dsimp only at hp
  have hpass1 := (skimPlain_reads rfl h (congrArg Except.ok h1)).2
  rcases h2 : c1.skim .word with ⟨_ | t2, c2⟩
  · rw [h2] at hp
    obtain ⟨rfl, rfl⟩ := hback hp
    rfl
  rw [h2] at hp
  dsimp only at hp
  obtain ⟨hword, hpass2⟩ := skimPlain_reads rfl hpass1.stands (congrArg Except.ok h2)
  rcases h3 : c2.skim (.symbol .parenRight) with ⟨_ | t3, c3⟩
  · rw [h3] at hp
    obtain ⟨rfl, rfl⟩ := hback hp
    rfl
  rw [h3] at hp
  obtain ⟨rfl, rfl⟩ := Prod.mk.inj (Except.ok.inj hp)
  have hpass3 := (skimPlain_reads rfl hpass2.stands (congrArg Except.ok h3)).2
  rw [Option.isSome_some, Bool.or_true] at hpass3
  refine ⟨not_atLineEnd (peekKind?_of_skim (congrArg Except.ok h1)) nofun,
    (hpass1.trans hpass2).trans hpass3, _, _, _, rfl, (hword t2 rfl).lexeme, h.position,
    hpass3.stands.last rfl⟩

lemma makes_listValueOf (ha : MakesExpression false atomic) : Makes IsValue (listValueOf atomic) := by
  intro b c l n d h hp
  obtain ⟨o, c1, ho, hrest⟩ := bind_ok_iff.1 hp
  have hr := assignerDereference?_reads h ho
  cases o with
  | some node =>
    obtain ⟨hline, hpass, start, name, stop, rfl, hname, hstart, hstop⟩ := hr
    obtain ⟨rfl, rfl⟩ := pure_ok_iff.1 hrest
    exact ⟨hline, rfl, l, hpass, Node.spans_of_line hstart hstop (Int.le_refl l), hname⟩
  | none =>
    rw [show c1 = c from hr] at hrest
    obtain ⟨value, c2, hvalue, hrest⟩ := bind_ok_iff.1 hrest
    obtain ⟨hline, m, hpass, hspan, he⟩ := makes_expressionOf ha h hvalue
    obtain ⟨x, c3, hx, hrest⟩ := bind_ok_iff.1 hrest
    have hpass3 := hpass.trans (skipped_reads rfl hpass.stands hx)
    rw [List.append_nil] at hpass3
    have hdone {e : Cursor} (hpass : Passes true c e l m value.comments)
        (hp : (pure (Node.expression value) : Parser Node) e = .ok (n, d)) :
        ¬c.AtLineEnd ∧ n.isComment = false ∧ ∃ m, Passes true c d l m n.comments ∧
          n.Spans l m ∧ IsValue n := by
      obtain ⟨rfl, rfl⟩ := pure_ok_iff.1 hp
      exact ⟨hline rfl, rfl, m, by rw [comments_expression]; exact hpass,
        ⟨hspan.start, hspan.le, hspan.stop⟩, he⟩
    cases x with
    | true => exact hdone hpass3 hrest
    | false =>
      replace hrest := of_peekKind?_bind hrest
      dsimp only at hrest
      split_ifs at hrest with hends
      · exact absurd hrest not_bind_reject_bind_ok
      · have hpass4 := hpass3.trans (.settle hpass3.stands)
        rw [List.append_nil] at hpass4
        exact hdone hpass4 hrest

lemma makes_callWith {alternatives : List (Parser (Option Node))} {P : Node → Prop}
    (ha : ∀ p ∈ alternatives, Gives (fun n => IsValue n ∧ P n) p) :
    Makes (fun n => IsExpression n ∧
      ∃ name args stop, n = .call name args stop ∧ ∀ arg ∈ args, P arg)
      (callWith (membersUntil .parenRight alternatives)) := by
  intro b c l n d h hp
  obtain ⟨name, c1, hname, hp⟩ := bind_ok_iff.1 hp
  obtain ⟨hline, hnames, hstart, -, hpass1⟩ := selectorOnly_reads h hname
  obtain ⟨t, c2, ht, hp⟩ := bind_ok_iff.1 hp
  obtain ⟨-, hpass2⟩ := takePlain_reads rfl hpass1.stands ht
  obtain ⟨args, c3, hargs, hp⟩ := bind_ok_iff.1 hp
  obtain ⟨m, hpass3, hchain, hall⟩ := membersUntil_reads ha hpass2.stands hargs
  obtain ⟨stop, hstop, rfl, rfl⟩ := lastStop_bind_ok hpass3.stands hp
  have hvalues : ∀ arg ∈ args, IsValue arg := fun arg harg => (hall arg harg).1
  have hpass := (hpass1.trans hpass2).trans hpass3
  refine ⟨hline, rfl, m, by rw [comments_call]; exact hpass,
    Node.spans_of_line hstart hstop hpass3.le, ⟨areValues_of_isValue hvalues, ⟨hnames, ?_, ?_⟩, ?_⟩,
    _, _, _, rfl, fun arg harg => (hall arg harg).2⟩
  · exact listShape_valuePlans hvalues (Int.le_of_eq hstart) hchain
  · exact valuesWF_valuePlans hvalues _ _
  · intro hsame
    have hlm : l = m := hstart ▸ hstop ▸ hsame
    have hone : ∀ arg ∈ args, arg.isComment = false ∧ arg.start.line = arg.stop.line ∧
        arg.stop.line ≤ name.start.line := by
      intro arg harg
      obtain ⟨hspan, hcomment⟩ := hchain.spans arg harg
      have h1 := hspan.start
      have h2 := hspan.le
      have h3 := hspan.stop
      refine ⟨Bool.eq_false_iff.2 fun hc => ?_, by omega, by omega⟩
      have := hcomment hc
      omega
    have hspread : spansLines name.start.line args = false := by
      refine List.any_eq_false.2 fun arg harg => ?_
      obtain ⟨hc, -, hle⟩ := hone arg harg
      simp [hc, hle]
    rw [Node.exprPlan, hspread, ExprPlan.isFlat,
      areFlat_valuePlans hvalues fun arg harg => ⟨(hone arg harg).1, (hone arg harg).2.1⟩]
    rfl

lemma makes_callOf (ha : MakesExpression false atomic) : Makes IsExpression (callOf atomic) := by
  refine (makes_callWith (P := fun _ => True) ?_).mono fun n hn => hn.1
  simp only [List.forall_mem_cons]
  exact ⟨gives_comma, gives_comment fun _ _ h => ⟨h, trivial⟩,
    (makes_listValueOf ha).gives fun n _ hn => ⟨hn, trivial⟩, gives_newline, by simp⟩

end Values

section Atoms

lemma isExpression_of_line {n : Node} (h1 : n.isExpr = true) (h2 : n.exprPlan.WF)
    (h3 : n.exprPlan.isFlat = true) : IsExpression n := ⟨h1, h2, fun _ => h3⟩

lemma makes_indexOf (ha : MakesExpression false atomic) :
    Makes (fun n => IsExpression n ∧ ∃ name subscript stop, n = .index name subscript stop)
      (indexOf atomic) := by
  intro b c l n d h hp
  obtain ⟨name, c1, hname, hp⟩ := bind_ok_iff.1 hp
  obtain ⟨hline, hnames, hstart, -, hpass1⟩ := selectorOnly_reads h hname
  obtain ⟨t, c2, ht, hp⟩ := bind_ok_iff.1 hp
  obtain ⟨-, hpass2⟩ := takePlain_reads rfl hpass1.stands ht
  obtain ⟨subscript, c3, hsub, hp⟩ := bind_ok_iff.1 hp
  obtain ⟨-, m, hpass3, hspan, he⟩ := makes_expressionOf ha hpass2.stands hsub
  obtain ⟨t', c4, ht', hp⟩ := bind_ok_iff.1 hp
  obtain ⟨-, hpass4⟩ := takePlain_reads rfl hpass3.stands ht'
  obtain ⟨stop, hstop, rfl, rfl⟩ := lastStop_bind_ok hpass4.stands hp
  have hpass := ((hpass1.trans hpass2).trans hpass3).trans hpass4
  rw [List.append_nil] at hpass
  refine ⟨hline, rfl, m, by rw [comments_index]; exact hpass,
    Node.spans_of_line hstart hstop hpass3.le, ⟨he.isExpr, ⟨hnames, he.wf⟩, fun hsame => ?_⟩,
    _, _, _, rfl⟩
  have hlm : l = m := hstart ▸ hstop ▸ hsame
  have h1 := hspan.start
  have h2 := hspan.le
  have h3 := hspan.stop
  exact he.flat (by omega)

lemma isExpression_prefixed {op : PrefixOp} {operand : Node} {start stop : Position} {k m : Int}
    (he : IsExpression operand) (hspan : operand.Spans l m) (hkl : k ≤ l) (hstart : start.line = k)
    (hstop : stop.line = m) : IsExpression (.prefixed start op operand stop) := by
  have h1 := hspan.start
  have h2 := hspan.le
  have h3 := hspan.stop
  have hflat (hsame : (Node.prefixed start op operand stop).start.line =
      (Node.prefixed start op operand stop).stop.line) : operand.exprPlan.isFlat = true := by
    have hsame : start.line = stop.line := hsame
    exact he.flat (by omega)
  by_cases hop : op = .unary .identity
  · subst hop
    exact ⟨he.isExpr, he.wf, hflat⟩
  · have hplan : (Node.prefixed start op operand stop).exprPlan = .prefixed op operand.exprPlan := by
      rw [Node.exprPlan]
      intro h
      exact hop h
    exact ⟨he.isExpr, by rw [hplan]; exact ⟨hop, he.wf⟩, fun hsame => by rw [hplan]; exact hflat hsame⟩

lemma makes_prefixedOf (ha : MakesExpression false atomic) (hk : kind.isPlain = true)
    (op : PrefixOp) (message : Text) :
    Makes IsExpression (prefixedOf atomic kind op message) := by
  intro b c l n d h hp
  obtain ⟨t, c1, ht, hp⟩ := bind_ok_iff.1 hp
  obtain ⟨hfound, hpass1⟩ := takePlain_reads hk h ht
  obtain ⟨operand, c2, hoperand, hp⟩ := bind_ok_iff.1 hp
  obtain ⟨-, m, hpass2, hspan, he⟩ := ha hpass1.stands hoperand
  obtain ⟨stop, hstop, rfl, rfl⟩ := lastStop_bind_ok hpass2.stands hp
  have hpass := hpass1.trans hpass2
  exact ⟨not_atLineEnd (peekKind?_of_take ht) (TokenKind.ne_newline hk), rfl, m,
    by rw [comments_prefixed]; exact hpass,
    Node.spans_of_line hfound.line hstop hpass2.le,
    isExpression_prefixed he hspan (Int.le_refl l) hfound.line hstop⟩

lemma makes_unaryOf (ha : MakesExpression false atomic) : Makes IsExpression (unaryOf atomic) := by
  intro b c l n d h hp
  replace hp := of_here_bind hp
  replace hp := of_peekKind?_bind hp
  rw [Cursor.peekKind?_settle, Cursor.settle_settle] at hp
  have hpass1 := Passes.settle h
  have hline : ∀ s, c.peekKind? = some (.symbol s) → ¬c.AtLineEnd :=
    fun s hs => not_atLineEnd hs nofun
  generalize c.peekKind? = kind at hp hline
  have hnone (hp : (reject c.position (.unexpectedToken "prefix operator expected") :
      Parser Node) c.settle = .ok (n, d)) : False := not_reject_ok hp
  rcases kind with _ | kind
  · exact (hnone hp).elim
  cases kind with
  | symbol s =>
    dsimp only at hp
    cases hop : UnaryOp.ofSymbol? s with
    | none => rw [hop] at hp; exact (hnone hp).elim
    | some op =>
      rw [hop] at hp
      obtain ⟨x, c3, hx, hp⟩ := bind_ok_iff.1 hp
      have hpass2 := hpass1.trans (skipped_reads rfl hpass1.stands hx)
      obtain ⟨operand, c4, hoperand, hp⟩ := bind_ok_iff.1 hp
      obtain ⟨-, m, hpass3, hspan, he⟩ := ha hpass2.stands hoperand
      obtain ⟨stop, hstop, rfl, rfl⟩ := lastStop_bind_ok hpass3.stands hp
      have hpass := hpass2.trans hpass3
      exact ⟨hline s rfl, rfl, m, by rw [comments_prefixed]; exact hpass,
        Node.spans_of_line h.position hstop hpass3.le,
        isExpression_prefixed he hspan (Int.le_refl l) h.position hstop⟩
  | _ => exact (hnone hp).elim

lemma makes_literal (literalKind : LiteralKind) {message : Text} :
    Makes IsExpression (literal literalKind.tokenKind literalKind message) := by
  intro b c l n d h hp
  obtain ⟨t, c1, ht, hp⟩ := bind_ok_iff.1 hp
  obtain ⟨hfound, hpass, -⟩ := take_reads h ht
  obtain ⟨stop, hstop, rfl, rfl⟩ := lastStop_bind_ok hpass.stands hp
  have hcomment : t.commentText = [] := if_neg (by rw [hfound.isKind]; cases literalKind <;> nofun)
  rw [hcomment] at hpass
  refine ⟨not_atLineEnd (peekKind?_of_take ht) (by cases literalKind <;> nofun), rfl, _, hpass,
    Node.spans_of_line hfound.line hstop hpass.le, rfl, hfound.lexeme, fun hsame => ?_⟩
  have hzero : t.text.newlines = 0 := by
    have hsame : t.start.line = stop.line := hsame
    have := hfound.line
    omega
  have hmem : '\n' ∉ t.text := List.count_eq_zero.1 hzero
  simpa [Node.exprPlan, ExprPlan.isFlat] using hmem

lemma makes_keyword {keyword : Keyword} {message : Text} {f : Position → Position → Node}
    (hf : ∀ start stop, IsExpression (f start stop) ∧ (f start stop).comments = [] ∧
      (f start stop).start = start ∧ (f start stop).stop = stop) :
    Makes IsExpression (do
      let token ← take (.keyword keyword) message
      return f token.start (← lastStop)) := by
  intro b c l n d h hp
  obtain ⟨t, c1, ht, hp⟩ := bind_ok_iff.1 hp
  obtain ⟨hfound, hpass⟩ := takePlain_reads rfl h ht
  obtain ⟨stop, hstop, rfl, rfl⟩ := lastStop_bind_ok hpass.stands hp
  obtain ⟨he, hcomments, hs, hs'⟩ := hf t.start stop
  exact ⟨not_atLineEnd (peekKind?_of_take ht) nofun, he.not_comment, l, by rw [hcomments]; exact hpass,
    Node.spans_of_line (by rw [hs, hfound.line]) (by rw [hs', hstop]) (Int.le_refl l), he⟩

lemma makes_boolean {keyword : Keyword} {value : Bool} {message : Text} :
    Makes IsExpression (boolean keyword value message) :=
  makes_keyword (f := fun start stop => .boolean start value stop) fun _ _ =>
    ⟨isExpression_of_line rfl trivial rfl, rfl, rfl, rfl⟩

lemma makes_nil : Makes IsExpression nil :=
  makes_keyword (f := .nil) fun _ _ => ⟨isExpression_of_line rfl trivial rfl, rfl, rfl, rfl⟩

lemma makes_zero : Makes IsExpression zero := by
  intro b c l n d h hp
  obtain ⟨t, c1, ht, hp⟩ := bind_ok_iff.1 hp
  obtain ⟨hfound, hpass1⟩ := takePlain_reads rfl h ht
  obtain ⟨t', c2, ht', hp⟩ := bind_ok_iff.1 hp
  obtain ⟨-, hpass2⟩ := takePlain_reads rfl hpass1.stands ht'
  obtain ⟨stop, hstop, rfl, rfl⟩ := lastStop_bind_ok hpass2.stands hp
  exact ⟨not_atLineEnd (peekKind?_of_take ht) nofun, rfl, l, hpass1.trans hpass2,
    Node.spans_of_line hfound.line hstop (Int.le_refl l), isExpression_of_line rfl trivial rfl⟩

lemma makes_selector :
    Makes (fun n => IsExpression n ∧ ∃ s, n = .selector s) selector := by
  intro b c l n d h hp
  obtain ⟨s, c1, hs, hp⟩ := bind_ok_iff.1 hp
  obtain ⟨hline, hnames, hstart, hstop, hpass⟩ := selectorOnly_reads h hs
  replace hp := of_peekKind?_bind hp
  have hresult : n = .selector s ∧ d = c1.settle := by
    generalize c1.peekKind? = kind at hp
    split at hp
    · exact absurd hp not_bind_reject_ok
    · exact absurd hp not_bind_reject_ok
    · exact absurd hp not_bind_reject_ok
    · exact pure_ok_iff.1 hp
  obtain ⟨rfl, rfl⟩ := hresult
  exact ⟨hline, rfl, l, hpass.trans (.settle hpass.stands),
    Node.spans_of_line hstart hstop (Int.le_refl l), isExpression_of_line rfl hnames rfl, s, rfl⟩

lemma makes_parenthesizedOf (ha : MakesExpression false atomic) :
    Makes IsExpression (parenthesizedOf atomic) := by
  intro b c l n d h hp
  obtain ⟨t, c1, ht, hp⟩ := bind_ok_iff.1 hp
  obtain ⟨hfound, hpass1⟩ := takePlain_reads rfl h ht
  obtain ⟨value, c2, hvalue, hp⟩ := bind_ok_iff.1 hp
  obtain ⟨-, m, hpass2, hspan, he⟩ := makes_expressionOf ha hpass1.stands hvalue
  obtain ⟨t', c3, ht', hp⟩ := bind_ok_iff.1 hp
  obtain ⟨-, hpass3⟩ := takePlain_reads rfl hpass2.stands ht'
  obtain ⟨rfl, rfl⟩ := pure_ok_iff.1 hp
  have hpass := (hpass1.trans hpass2).trans hpass3
  rw [List.append_nil] at hpass
  exact ⟨not_atLineEnd (peekKind?_of_take ht) nofun, he.not_comment, m, hpass, hspan, he⟩

lemma makesExpression_firstOf {ps : List (Parser Node)} (h : ∀ p ∈ ps, Makes IsExpression p) :
    MakesExpression false (firstOf ps) := by
  intro b c l n d hc hp
  obtain ⟨p, hmem, hp⟩ := firstOf_ok hp
  exact (h p hmem).makesExpression hc hp

lemma makes_atomicOf (ha : MakesExpression false atomic) :
    MakesExpression false (atomicOf atomic) := by
  refine makesExpression_firstOf ?_
  simp only [List.forall_mem_cons]
  exact ⟨makes_prefixedOf ha rfl _ _, makes_callOf ha, makes_literal .character,
    makes_prefixedOf ha rfl _ _, makes_boolean, (makes_indexOf ha).mono fun n hn => hn.1,
    makes_literal .integer, makes_nil, makes_parenthesizedOf ha,
    makes_prefixedOf ha rfl _ _, makes_selector.mono fun n hn => hn.1,
    makes_literal .string, makes_boolean, makes_unaryOf ha, makes_zero, by simp⟩

lemma makes_atomicWithin (fuel : Nat) : MakesExpression false (atomicWithin fuel) := by
  induction fuel with
  | zero => exact fun _ _ _ _ _ _ hp => by cases hp
  | succ fuel ih => exact makes_atomicOf ih

lemma makes_atomic : MakesExpression false Parser.atomic := fun _ _ _ _ _ h hp => makes_atomicWithin _ h hp

lemma makes_expression (multiline : Bool) : MakesExpression multiline (expression multiline) :=
  makes_expressionOf makes_atomic

lemma makes_listValue : Makes IsValue listValue := makes_listValueOf makes_atomic

end Atoms

end DpLang.Parser
