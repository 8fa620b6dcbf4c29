import DpLang.Proofs.ExprTree
import DpLang.Proofs.ReadBack
import DpLang.Proofs.ReadingFile
import DpLang.Proofs.Spelling

/-!
# Expressions are read back

The pieces in which an expression is written are read as that expression. Parentheses are written
just where the two levels of precedence of the grammar need them: an operand that is an operation is
in parentheses unless it is of the highest precedence, or it is the left operand of an operator of
its own precedence. So what is written without parentheses is an atomic expression, a chain of
operators of the highest precedence, or a chain of operators of one precedence.
-/

namespace DpLang

section Openings

def kindsOf (pieces : List Piece) : List TokenKind := pieces.map Prod.fst

/-- What an expression may start with that is neither a name nor a parenthesis. -/
def signs : List TokenKind :=
  [.symbol .ampersand, .character, .keyword .cloneKw, .keyword .falseKw, .integer, .keyword .nilKw,
    .symbol .asterisk, .string, .keyword .trueKw, .symbol .plus, .symbol .minus, .symbol .caret,
    .symbol .exclamation, .symbol .braceLeft]

/-- How the pieces of an expression start. A parenthesis holds more than a name. -/
inductive Opening : List Piece → Prop where
  | sign {kind : TokenKind} {text : Text} {rest : List Piece} (h : kind ∈ signs) :
      Opening ((kind, text) :: rest)
  | name {text : Text} {rest : List Piece} (h : headKind? rest ≠ some (.symbol .parenRight)) :
      Opening ((.word, text) :: rest)
  | paren {text : Text} {first second : Piece} {rest : List Piece}
      (h : ¬(first.1 = .word ∧ second.1 = .symbol .parenRight)) :
      Opening ((.symbol .parenLeft, text) :: first :: second :: rest)

namespace Opening

variable {x y : List Piece}

lemma append (h : Opening x) (hy : headKind? y ≠ some (.symbol .parenRight)) : Opening (x ++ y) := by
  cases h with
  | sign h => exact .sign h
  | @name text rest h =>
    cases rest with
    | nil => exact .name hy
    | cons piece rest => exact .name h
  | paren h => exact .paren h

lemma in_parens (h : Opening (x ++ y)) (hx : x ≠ []) (hy : y ≠ []) (text : Text) :
    Opening ((.symbol .parenLeft, text) :: (x ++ y)) := by
  obtain ⟨first, second, rest, hsplit⟩ : ∃ first second rest, x ++ y = first :: second :: rest := by
    match x, y with
    | [], _ => exact absurd rfl hx
    | _, [] => exact absurd rfl hy
    | [first], second :: rest => exact ⟨first, second, rest, rfl⟩
    | first :: second :: rest, y => exact ⟨first, second, rest ++ y, rfl⟩
  rw [hsplit] at h ⊢
  refine .paren fun hname => ?_
  obtain ⟨hword, hparen⟩ := hname
  cases h with
  | sign h =>
    subst hword
    exact absurd h (by decide)
  | name h => exact h (congrArg some hparen)
  | paren h => cases hword

lemma head (h : Opening x) : ∃ kind ∈ Parser.atomicStarts, headKind? x = some kind := by
  cases h with
  | @sign kind _ _ h =>
    have hstart : signs ⊆ Parser.atomicStarts := by decide
    exact ⟨kind, hstart h, rfl⟩
  | name h => exact ⟨.word, by decide, rfl⟩
  | paren h => exact ⟨.symbol .parenLeft, by decide, rfl⟩

lemma head_ne (h : Opening x) {kind : TokenKind} (hk : kind ∉ Parser.atomicStarts) :
    headKind? x ≠ some kind := by
  obtain ⟨found, hfound, hx⟩ := h.head
  rw [hx]
  intro heq
  rw [Option.some.inj heq] at hfound
  exact hk hfound

lemma ne_dereference (h : Opening x) (y : List Piece) (rest : List TokenKind) :
    kindsOf (x ++ y) ≠ .symbol .parenLeft :: .word :: .symbol .parenRight :: rest := by
  intro heq
  cases h with
  | @sign kind _ _ h =>
    obtain rfl : kind = .symbol .parenLeft := (List.cons.inj heq).1
    exact absurd h (by decide)
  | name h => cases heq
  | paren h =>
    have htail := (List.cons.inj heq).2
    exact h ⟨(List.cons.inj htail).1, (List.cons.inj (List.cons.inj htail).2).1⟩

lemma ne_nil (h : Opening x) : x ≠ [] := by cases h <;> simp

end Opening

lemma opening_names {names : List Text} (h : AreNames names) {z : List Piece}
    (hz : headKind? z ≠ some (.symbol .parenRight)) : Opening (joinedWords .period names ++ z) := by
  obtain ⟨hne, -⟩ := h
  match names with
  | [] => exact absurd rfl hne
  | [name] => exact .name hz
  | name :: next :: names =>
    rw [Parser.joinedWords_cons]
    exact .name nofun

lemma headKind?_operator (op : BinaryOp) (x : List Piece) :
    headKind? (symbolPiece op.symbol :: x) ≠ some (.symbol .parenRight) := by
  cases op <;> exact nofun

lemma ExprPlan.opening (outer : Nat) (tight right : Bool) : ∀ plan : ExprPlan, plan.WF →
    Opening (plan.pieces outer tight right) := by
  intro plan hwf
  cases plan with
  | prefixed op operand =>
    rw [ExprPlan.pieces]
    have hsign : op.piece.1 ∈ signs := by
      cases op with
      | unary op => cases op <;> decide
      | _ => decide
    exact .sign hsign
  | binary left op operand =>
    rw [ExprPlan.WF] at hwf
    rw [ExprPlan.pieces]
    have hleft := ExprPlan.opening op.precedence
      (BinaryStyle.choose op.precedence outer tight right).tight false left hwf.1
    split
    · rw [inParens, List.cons_append, List.append_assoc]
      exact (hleft.append (headKind?_operator op _)).in_parens hleft.ne_nil (by simp) _
    · exact hleft.append (headKind?_operator op _)
  | boolean value =>
    rw [ExprPlan.pieces]
    cases value with
    | true => exact .sign (by decide)
    | false => exact .sign (by decide)
  | call names spread args =>
    rw [ExprPlan.WF] at hwf
    rw [ExprPlan.pieces]
    exact opening_names hwf.1 (by simp [headKind?, inParens, symbolPiece])
  | index names subscript =>
    rw [ExprPlan.WF] at hwf
    rw [ExprPlan.pieces, List.append_assoc]
    exact opening_names hwf.1 (by simp [headKind?, symbolPiece])
  | literal kind source =>
    rw [ExprPlan.pieces]
    exact .sign (by cases kind <;> decide)
  | nil =>
    rw [ExprPlan.pieces]
    exact .sign (by decide)
  | selector names =>
    rw [ExprPlan.WF] at hwf
    rw [ExprPlan.pieces, ← List.append_nil (joinedWords .period names)]
    exact opening_names hwf (by simp [headKind?])
  | zero =>
    rw [ExprPlan.pieces]
    exact .sign (by decide)

lemma ExprPlan.head_ne {plan : ExprPlan} (hwf : plan.WF) {kind : TokenKind}
    (hk : kind ∉ Parser.atomicStarts) (outer : Nat) (tight right : Bool) (y : List Piece) :
    headKind? (plan.pieces outer tight right ++ y) ≠ some kind := by
  have hopen := plan.opening outer tight right hwf
  obtain ⟨piece, rest, hpieces⟩ := List.exists_cons_of_ne_nil hopen.ne_nil
  have hhead := hopen.head_ne hk
  rw [hpieces] at hhead ⊢
  exact hhead

end Openings

namespace Parser

variable {multiline : Bool} {x y z : List Piece} {op : BinaryOp} {P Q : Node → Prop}

section Chains

/-- What follows cannot belong to an atomic expression. -/
def EndsAtom (y : List Piece) : Prop :=
  ∀ kind ∈ [TokenKind.symbol .period, .symbol .colons, .symbol .parenLeft, .symbol .bracketLeft],
    headKind? y ≠ some kind

/-- What follows cannot belong to an operand. -/
structure EndsOperand (multiline : Bool) (y : List Piece) : Prop where
  atom : EndsAtom y
  line : multiline = true → headKind? y ≠ some .newline
  operator : ∀ op : BinaryOp, op.precedence = BinaryOp.maxPrecedence →
    headKind? y ≠ some (.symbol op.symbol)

/-- What follows cannot belong to an expression. -/
structure EndsExpression (multiline : Bool) (y : List Piece) : Prop where
  atom : EndsAtom y
  line : multiline = true → headKind? y ≠ some .newline
  operator : StartsNoOperator y

lemma EndsExpression.operand (h : EndsExpression multiline y) : EndsOperand multiline y :=
  ⟨h.atom, h.line, fun op _ => h.operator op⟩

lemma endsAtom_operator (op : BinaryOp) (y : List Piece) :
    EndsAtom (symbolPiece op.symbol :: y) := by
  intro kind hkind heq
  obtain rfl := Option.some.inj heq
  revert hkind
  cases op <;> decide

lemma endsOperand_operator (hop : op.precedence < BinaryOp.maxPrecedence) (y : List Piece) :
    EndsOperand multiline (symbolPiece op.symbol :: y) where
  atom := endsAtom_operator op y
  line _ := nofun
  operator other hother heq := by
    have hsymbol : op.symbol = other.symbol := TokenKind.symbol.inj (Option.some.inj heq)
    have hsame : some op = some other := by
      rw [← ofSymbol?_symbol op, ← ofSymbol?_symbol other, hsymbol]
    rw [Option.some.inj hsame] at hop
    omega

lemma reads_operandLast (h : EndsOperand multiline y) (left : Node) :
    Reads (operandRest multiline left) y y (· = left) := by
  rw [operandRest_eq]
  refine (reads_noTightOperator h.line h.operator).bind fun found hfound => ?_
  subst hfound
  exact reads_pure rfl

lemma reads_operandNext {left : Node} (hop : op.precedence = BinaryOp.maxPrecedence)
    (hx : headKind? x ≠ some .newline) (ha : Reads atomic x y Q)
    (hnext : ∀ right stop, Q right →
      Reads (operandRest multiline (.binary left op right stop)) y z P) :
    Reads (operandRest multiline left) (symbolPiece op.symbol :: x) z P := by
  rw [operandRest_eq]
  refine (reads_tightOperator? hop).bind fun found hfound => ?_
  subst hfound
  refine (reads_skipNewlinesIf fun _ => hx).bind fun _ _ => ha.bind fun right hright => ?_
  exact reads_lastStop.bind fun stop _ => hnext right stop hright

lemma reads_chainLast {before : Option (Node × BinaryOp)} (hx : headKind? x ≠ some .newline)
    (h : Reads (operand multiline) x y Q) (hy : EndsExpression multiline y) :
    Reads (chain multiline before) x y
      fun n => ∃ right stop, Q right ∧ n = joined before right stop := by
  rw [chain_eq]
  refine (reads_skipNewlinesIf fun _ => hx).bind fun _ _ => h.bind fun right hright => ?_
  refine reads_lastStop.bind fun stop _ => (reads_skipNewlinesIf hy.line).bind fun _ _ => ?_
  refine (reads_noInfixOperator hy.operator).bind fun found hfound => ?_
  subst hfound
  exact reads_pure ⟨right, stop, hright, rfl⟩

lemma reads_chainNext {before : Option (Node × BinaryOp)} (hx : headKind? x ≠ some .newline)
    (h : Reads (operand multiline) x (symbolPiece op.symbol :: y) Q)
    (hmix : mixes before op = false)
    (hnext : ∀ right stop, Q right →
      Reads (chain multiline (some (joined before right stop, op))) y z P) :
    Reads (chain multiline before) x z P := by
  rw [chain_eq]
  refine (reads_skipNewlinesIf fun _ => hx).bind fun _ _ => h.bind fun right hright => ?_
  refine reads_lastStop.bind fun stop _ => ?_
  refine (reads_skipNewlinesIf fun _ => by simp [headKind?, symbolPiece]).bind fun _ _ => ?_
  refine reads_infixOperator?.bind fun found hfound => ?_
  subst hfound
  simp only [hmix, Bool.false_eq_true, if_false]
  exact hnext right stop hright

end Chains

section Atoms

/-- The alternatives of an atomic expression, with what they start with. -/
def atomTable (atomic : Parser Node) : List (List TokenKind × Parser Node) := [
  ([.symbol .ampersand],
    prefixedOf atomic (.symbol .ampersand) .address "address operator expected"),
  ([.word], callOf atomic),
  ([.character], literal .character .character "character literal expected"),
  ([.keyword .cloneKw], prefixedOf atomic (.keyword .cloneKw) .clone "clone keyword expected"),
  ([.keyword .falseKw], boolean .falseKw false "literal false expected"),
  ([.word], indexOf atomic),
  ([.integer], literal .integer .integer "integer literal expected"),
  ([.keyword .nilKw], nil),
  ([.symbol .parenLeft], parenthesizedOf atomic),
  ([.symbol .asterisk],
    prefixedOf atomic (.symbol .asterisk) .dereference "pointer dereference operator expected"),
  ([.word], selector),
  ([.string], literal .string .string "string literal expected"),
  ([.keyword .trueKw], boolean .trueKw true "literal true expected"),
  ([.symbol .plus, .symbol .minus, .symbol .caret, .symbol .exclamation], unaryOf atomic),
  ([.symbol .braceLeft], zero)]

lemma atomicOf_eq (atomic : Parser Node) :
    atomicOf atomic = firstOf ((atomTable atomic).map Prod.snd) := rfl

lemma rejects_atomTable {atomic : Parser Node} :
    ∀ entry ∈ atomTable atomic, ∀ c, c.StartsNone entry.1 → Rejects entry.2 c := by
  have htake {α : Type} {kind : TokenKind} {message : Text} (f : Token → Parser α) (c : Cursor)
      (hc : c.StartsNone [kind]) : Rejects (take kind message >>= f) c :=
    (rejects_take (hc kind List.mem_cons_self) message).bind f
  simp only [atomTable, List.forall_mem_cons]
  exact ⟨htake _, fun c hc => rejects_callWith hc _, htake _, htake _, htake _,
    fun c hc => rejects_indexOf hc, htake _, htake _, htake _, htake _,
    fun c hc => rejects_selector hc, htake _, htake _, fun c hc => rejects_unaryOf hc, htake _,
    by simp⟩

lemma atomic_of_ok {heads : List TokenKind} {p : Parser Node} {c : Cursor} {result : Node × Cursor}
    (i : Nat) (hi : (atomTable atomic)[i]? = some (heads, p))
    (hskip : ∀ entry ∈ (atomTable atomic).take i, Rejects entry.2 c) (h : p c = .ok result) :
    atomic c = .ok result := by
  obtain ⟨hlt, hget⟩ := List.getElem?_eq_some_iff.1 hi
  have hsplit : (atomTable atomic).map Prod.snd =
      ((atomTable atomic).take i).map Prod.snd ++ p :: ((atomTable atomic).drop (i + 1)).map Prod.snd := by
    conv_lhs => rw [← List.take_append_drop i (atomTable atomic), List.drop_eq_getElem_cons hlt, hget]
    rw [List.map_append, List.map_cons]
  rw [atomic_eq, atomicOf_eq, hsplit]
  refine firstOf_of_ok (fun q hq => ?_) h
  obtain ⟨entry, hentry, rfl⟩ := List.mem_map.1 hq
  exact hskip entry hentry

/-- An alternative is taken if no earlier one is: none of them starts with what comes next, or else
they fail later. -/
lemma reads_atomic_at {kind : TokenKind} {heads : List TokenKind} {p : Parser Node} (i : Nat)
    (hi : (atomTable atomic)[i]? = some (heads, p)) (hx : headKind? x = some kind)
    (hskip : ∀ entry ∈ (atomTable atomic).take i, kind ∉ entry.1 ∨ RejectsAt entry.2 x)
    (h : Reads p x y P) : Reads atomic x y P := by
  intro c hc
  obtain ⟨a, d, hp, ha, hd⟩ := h c hc
  refine ⟨a, d, atomic_of_ok i hi (fun entry hentry => ?_) hp, ha, hd⟩
  rcases hskip entry hentry with hkind | hrejects
  · refine rejects_atomTable entry (List.mem_of_mem_take hentry) c (startsNone_of_sees hc ?_)
    intro head hhead heq
    rw [hx] at heq
    rw [Option.some.inj heq] at hkind
    exact hkind hhead
  · exact hrejects c hc

/-- What the alternatives of an atomic expression start with. -/
def atomHeads : List (List TokenKind) := (atomTable atomic).map Prod.fst

lemma reads_atomic_head {kind : TokenKind} {heads : List TokenKind} {p : Parser Node} (i : Nat)
    (hi : (atomTable atomic)[i]? = some (heads, p)) (hx : headKind? x = some kind)
    (hskip : ∀ heads ∈ atomHeads.take i, kind ∉ heads) (h : Reads p x y P) : Reads atomic x y P := by
  refine reads_atomic_at i hi hx (fun entry hentry => .inl (hskip _ ?_)) h
  rw [atomHeads, ← List.map_take]
  exact List.mem_map_of_mem hentry

end Atoms

section Readable

/-- The node is what the plan is made for, up to positions. -/
def Shows (plan : ExprPlan) (n : Node) : Prop := n.erased = plan.tree

/-- Is the plan written as an atomic expression inside an operator of precedence `outer`? -/
def isAtom (outer : Nat) (right : Bool) : ExprPlan → Bool
  | .binary _ op _ => (BinaryStyle.choose op.precedence outer false right).parens
  | _ => true

/-- The plan is read back. The fields are about the parts of the grammar from the inner to the outer:
atomic expressions; what stands on the left of an operator of the highest precedence; what stands on
the left of another operator; whole expressions. In the second and third, the result is handed to
what reads on. -/
structure Readable (plan : ExprPlan) : Prop where
  atom : ∀ outer tight right y, isAtom outer right plan = true → EndsAtom y →
    Reads atomic (plan.pieces outer tight right ++ y) y (Shows plan)
  spine : ∀ multiline tight y z P, EndsAtom y →
    (∀ n, Shows plan n → Reads (operandRest multiline n) y z P) →
      Reads (operand multiline) (plan.pieces BinaryOp.maxPrecedence tight false ++ y) z P
  chain : ∀ multiline (op : BinaryOp) tight y z P, op.precedence < BinaryOp.maxPrecedence →
    (∀ n, Shows plan n → Reads (chain multiline (some (n, op))) y z P) →
      Reads (Parser.chain multiline none)
        (plan.pieces op.precedence tight false ++ symbolPiece op.symbol :: y) z P
  whole : ∀ multiline tight y, EndsExpression multiline y →
    Reads (expression multiline) (plan.pieces 0 tight false ++ y) y (Shows plan)

lemma reads_operandOfAtom (h : Reads atomic x y Q) (hy : EndsOperand multiline y) :
    Reads (operand multiline) x y Q := by
  rw [operand_eq]
  refine h.bind fun n hn => (reads_operandLast hy n).mono fun m hm => ?_
  rw [hm]
  exact hn

lemma reads_expressionOfOperand (hx : headKind? x ≠ some .newline)
    (h : Reads (operand multiline) x y Q) (hy : EndsExpression multiline y) :
    Reads (expression multiline) x y Q := by
  rw [expression_eq]
  refine (reads_chainLast hx h hy).mono ?_
  rintro n ⟨right, stop, hright, rfl⟩
  exact hright

lemma readable_of_atom {plan : ExprPlan} (hwf : plan.WF)
    (h : ∀ outer tight right y, EndsAtom y →
      Reads atomic (plan.pieces outer tight right ++ y) y (Shows plan)) : Readable plan where
  atom outer tight right y _ hy := h outer tight right y hy
  spine multiline tight y z P hy hnext := by
    rw [operand_eq]
    exact (h _ tight false y hy).bind hnext
  chain multiline op tight y z P hop hnext := by
    refine reads_chainNext (plan.head_ne hwf (by decide) _ _ _ _) ?_ rfl
      fun right stop hright => hnext right hright
    exact reads_operandOfAtom (h _ tight false _ (endsAtom_operator op y))
      (endsOperand_operator hop y)
  whole multiline tight y hy :=
    reads_expressionOfOperand (plan.head_ne hwf (by decide) _ _ _ _)
      (reads_operandOfAtom (h _ tight false _ hy.atom) hy.operand) hy

variable {left right : ExprPlan} {outer : Nat} {tight isRight : Bool}

lemma precedence_bounds (op : BinaryOp) : 1 ≤ op.precedence ∧ op.precedence ≤ BinaryOp.maxPrecedence := by
  cases op <;> decide

lemma pieces_of_atom (h : isAtom outer isRight (.binary left op right) = true) (tight : Bool) :
    ∃ inner, (ExprPlan.binary left op right).pieces outer tight isRight =
      inParens (left.pieces op.precedence inner false ++
        symbolPiece op.symbol :: right.pieces op.precedence inner true) := by
  rw [ExprPlan.pieces, if_pos (show (BinaryStyle.choose op.precedence outer tight isRight).parens = true from h)]
  exact ⟨_, rfl⟩

lemma pieces_of_bare (h : isAtom outer isRight (.binary left op right) ≠ true) (tight : Bool) :
    ∃ inner, (ExprPlan.binary left op right).pieces outer tight isRight =
      left.pieces op.precedence inner false ++
        symbolPiece op.symbol :: right.pieces op.precedence inner true := by
  rw [ExprPlan.pieces, if_neg (show ¬(BinaryStyle.choose op.precedence outer tight isRight).parens = true from h)]
  exact ⟨_, rfl⟩

lemma pieces_left (inner : Bool) : (ExprPlan.binary left op right).pieces op.precedence inner false =
    left.pieces op.precedence inner false ++
      symbolPiece op.symbol :: right.pieces op.precedence inner true := by
  have hstyle : BinaryStyle.choose op.precedence op.precedence inner false = ⟨inner, false⟩ := by
    simp [BinaryStyle.choose]
  rw [ExprPlan.pieces, hstyle]
  rfl

/-- Operations that are neither of the highest precedence nor of that of the operator they are on
the left of are in parentheses. -/
lemma parens_iff {inner : Nat} :
    (BinaryStyle.choose inner outer tight isRight).parens = true ↔
      0 < outer ∧ ((inner ≠ outer ∧ ¬(outer < inner ∧ inner = BinaryOp.maxPrecedence)) ∨
        (isRight = true ∧ inner = outer)) := by
  simp only [BinaryStyle.choose, Bool.and_eq_true, Bool.or_eq_true, decide_eq_true_eq, bne_iff_ne,
    beq_iff_eq, Bool.not_eq_true', Bool.and_eq_false_iff, decide_eq_false_iff_not, beq_eq_false_iff_ne]
  tauto

lemma isAtom_ultimate (plan : ExprPlan) : isAtom ultimatePrecedence false plan = true := by
  cases plan with
  | binary left op right =>
    have hle : op.precedence ≤ 5 := (precedence_bounds op).2
    have hmax : ultimatePrecedence = 6 := rfl
    exact parens_iff.2 ⟨by omega, .inl ⟨by omega, by omega⟩⟩
  | _ => rfl

lemma reads_prefixed {kind : TokenKind} {prefixOp : PrefixOp} {operand : ExprPlan} {text : Text}
    (message : Text) (h : Readable operand) (hy : EndsAtom y) :
    Reads (prefixedOf atomic kind prefixOp message)
      ((kind, text) :: (operand.pieces ultimatePrecedence tight false ++ y)) y
      (Shows (.prefixed prefixOp operand)) := by
  refine (reads_take message).bind fun token _ => ?_
  refine (h.atom _ tight false y (isAtom_ultimate operand) hy).bind fun n hn => ?_
  refine reads_lastStop.bind fun stop _ => reads_pure ?_
  rw [Shows, Node.erased, ExprPlan.tree, hn]

lemma reads_unary {unary : UnaryOp} {operand : ExprPlan} (h : Readable operand) (hy : EndsAtom y) :
    Reads (unaryOf atomic)
      (symbolPiece unary.symbol :: (operand.pieces ultimatePrecedence tight false ++ y)) y
      (Shows (.prefixed (.unary unary) operand)) := by
  have hunary : UnaryOp.ofSymbol? unary.symbol = some unary := by cases unary <;> decide
  refine reads_here.bind fun start _ => reads_peekKind?.bind fun kind hkind => ?_
  rw [hkind, headKind?_cons]
  dsimp only [symbolPiece]
  rw [hunary]
  refine reads_skip.bind fun _ _ => ?_
  refine (h.atom _ tight false y (isAtom_ultimate operand) hy).bind fun n hn => ?_
  refine reads_lastStop.bind fun stop _ => reads_pure ?_
  rw [Shows, Node.erased, ExprPlan.tree, hn]

lemma readable_prefixed {prefixOp : PrefixOp} {operand : ExprPlan}
    (hwf : (ExprPlan.prefixed prefixOp operand).WF) (h : Readable operand) :
    Readable (.prefixed prefixOp operand) := by
  refine readable_of_atom hwf fun outer tight right y hy => ?_
  rw [ExprPlan.pieces, List.cons_append]
  cases prefixOp with
  | address => exact reads_atomic_head 0 rfl rfl (by decide) (reads_prefixed _ h hy)
  | clone => exact reads_atomic_head 3 rfl rfl (by decide) (reads_prefixed _ h hy)
  | dereference => exact reads_atomic_head 9 rfl rfl (by decide) (reads_prefixed _ h hy)
  | unary op =>
    refine reads_atomic_head 13 rfl rfl ?_ (reads_unary h hy)
    cases op <;> decide

lemma readable_boolean (value : Bool) : Readable (.boolean value) := by
  refine readable_of_atom (by rw [ExprPlan.WF]; trivial) fun outer tight right y hy => ?_
  have hread (keyword : Keyword) (message : Text) :
      Reads (boolean keyword value message) (keywordPiece keyword :: y) y (Shows (.boolean value)) := by
    refine (reads_take message).bind fun token _ => reads_lastStop.bind fun stop _ => reads_pure ?_
    rw [Shows, Node.erased, ExprPlan.tree]
  rw [ExprPlan.pieces]
  cases value with
  | true => exact reads_atomic_head 12 rfl rfl (by decide) (hread _ _)
  | false => exact reads_atomic_head 4 rfl rfl (by decide) (hread _ _)

lemma readable_literal {kind : LiteralKind} {source : Text} (hwf : (ExprPlan.literal kind source).WF) :
    Readable (.literal kind source) := by
  refine readable_of_atom hwf fun outer tight right y hy => ?_
  have hread (message : Text) :
      Reads (literal kind.tokenKind kind message) ((kind.tokenKind, source) :: y) y
        (Shows (.literal kind source)) := by
    refine (reads_take message).bind fun token htext => ?_
    refine reads_lastStop.bind fun stop _ => reads_pure ?_
    rw [Shows, Node.erased, ExprPlan.tree, htext]
  rw [ExprPlan.pieces]
  cases kind with
  | integer =>
    have hkind : headKind? ((TokenKind.integer, source) :: y) = some .integer := rfl
    exact reads_atomic_head 6 rfl hkind (by decide) (hread _)
  | character =>
    have hkind : headKind? ((TokenKind.character, source) :: y) = some .character := rfl
    exact reads_atomic_head 2 rfl hkind (by decide) (hread _)
  | string =>
    have hkind : headKind? ((TokenKind.string, source) :: y) = some .string := rfl
    exact reads_atomic_head 11 rfl hkind (by decide) (hread _)

lemma readable_nil : Readable .nil := by
  refine readable_of_atom (by rw [ExprPlan.WF]; trivial) fun outer tight right y hy => ?_
  rw [ExprPlan.pieces]
  refine reads_atomic_head 7 rfl rfl (by decide) ?_
  refine (reads_take _).bind fun token _ => reads_lastStop.bind fun stop _ => reads_pure ?_
  rw [Shows, Node.erased, ExprPlan.tree]

lemma readable_zero : Readable .zero := by
  refine readable_of_atom (by rw [ExprPlan.WF]; trivial) fun outer tight right y hy => ?_
  rw [ExprPlan.pieces]
  refine reads_atomic_head 14 rfl rfl (by decide) ?_
  refine (reads_take _).bind fun token _ => (reads_take _).bind fun _ _ => ?_
  refine reads_lastStop.bind fun stop _ => reads_pure ?_
  rw [Shows, Node.erased, ExprPlan.tree]

lemma EndsAtom.head (hy : EndsAtom y) :
    headKind? y ≠ some (.symbol .period) ∧ headKind? y ≠ some (.symbol .colons) ∧
      headKind? y ≠ some (.symbol .parenLeft) ∧ headKind? y ≠ some (.symbol .bracketLeft) :=
  ⟨hy _ (by simp), hy _ (by simp), hy _ (by simp), hy _ (by simp)⟩

lemma headKind?_names {names : List Text} (h : AreNames names) (y : List Piece) :
    headKind? (joinedWords .period names ++ y) = some .word := by
  cases names with
  | nil => exact absurd rfl h.1
  | cons name names =>
    rw [joinedWords_cons]
    rfl

lemma rejectsAt_call {names : List Text} (h : AreNames names)
    (hperiod : headKind? y ≠ some (.symbol .period))
    (hparen : headKind? y ≠ some (.symbol .parenLeft)) (arguments : Parser (List Node)) :
    RejectsAt (callWith arguments) (joinedWords .period names ++ y) :=
  (reads_selectorOnly h.1 hperiod).rejects fun _ _ => (rejectsAt_take hparen _).bind _

lemma rejectsAt_index {names : List Text} (h : AreNames names)
    (hperiod : headKind? y ≠ some (.symbol .period))
    (hbracket : headKind? y ≠ some (.symbol .bracketLeft)) :
    RejectsAt (indexOf atomic) (joinedWords .period names ++ y) :=
  (reads_selectorOnly h.1 hperiod).rejects fun _ _ => (rejectsAt_take hbracket _).bind _

lemma readable_selector {names : List Text} (hwf : (ExprPlan.selector names).WF) :
    Readable (.selector names) := by
  refine readable_of_atom hwf fun outer tight right y hy => ?_
  rw [ExprPlan.WF] at hwf
  rw [ExprPlan.pieces]
  obtain ⟨hperiod, hcolons, hparen, hbracket⟩ := hy.head
  have hcall := rejectsAt_call hwf hperiod hparen (argumentsOf atomic)
  have hindex := rejectsAt_index hwf hperiod hbracket
  refine reads_atomic_at 10 rfl (headKind?_names hwf y) ?_ ?_
  · simp only [atomTable, List.take, List.forall_mem_cons]
    exact ⟨.inl (by decide), .inr hcall, .inl (by decide), .inl (by decide), .inl (by decide),
      .inr hindex, .inl (by decide), .inl (by decide), .inl (by decide), .inl (by decide), by simp⟩
  · refine (reads_selectorOnly hwf.1 hperiod).bind fun name hname => ?_
    refine reads_peekKind?.bind fun kind hkind => ?_
    have hshows : Shows (.selector names) (.selector name) := by
      rw [Shows, Node.erased, ExprPlan.tree, Selector.erased, hname]
    split
    · exact absurd hkind.symm hcolons
    · exact absurd hkind.symm hparen
    · exact absurd hkind.symm hbracket
    · exact reads_pure hshows

lemma endsExpression_closing {s : Symbol} (hs : s = .parenRight ∨ s = .bracketRight ∨ s = .comma)
    (y : List Piece) : EndsExpression multiline (symbolPiece s :: y) where
  atom kind hkind heq := by
    obtain rfl := Option.some.inj heq
    revert hkind
    rcases hs with rfl | rfl | rfl <;> decide
  line _ := nofun
  operator op heq := by
    have hsymbol := TokenKind.symbol.inj (Option.some.inj heq)
    rcases hs with rfl | rfl | rfl <;> cases op <;> cases hsymbol

lemma readable_index {names : List Text} {subscript : ExprPlan}
    (hwf : (ExprPlan.index names subscript).WF) (h : Readable subscript) :
    Readable (.index names subscript) := by
  refine readable_of_atom hwf fun outer tight right y hy => ?_
  rw [ExprPlan.WF] at hwf
  rw [ExprPlan.pieces, List.append_assoc, List.append_assoc, List.cons_append]
  have hperiod : headKind? (symbolPiece .bracketLeft ::
      (subscript.pieces 0 false false ++ ([symbolPiece .bracketRight] ++ y))) ≠
        some (.symbol .period) := nofun
  have hcall := rejectsAt_call hwf.1 hperiod nofun (argumentsOf atomic)
  refine reads_atomic_at 5 rfl (headKind?_names hwf.1 _) ?_ ?_
  · simp only [atomTable, List.take, List.forall_mem_cons]
    exact ⟨.inl (by decide), .inr hcall, .inl (by decide), .inl (by decide), .inl (by decide),
      by simp⟩
  · refine (reads_selectorOnly hwf.1.1 hperiod).bind fun name hname => ?_
    refine (reads_take _).bind fun _ _ => ?_
    refine (h.whole true false _ (endsExpression_closing (by simp) y)).bind fun n hn => ?_
    refine (reads_take _).bind fun _ _ => reads_lastStop.bind fun stop _ => reads_pure ?_
    rw [Shows, Node.erased, ExprPlan.tree, Selector.erased, hname, hn]

lemma shows_binary {leftNode rightNode : Node} (hl : Shows left leftNode) (hr : Shows right rightNode)
    (stop : Position) : Shows (.binary left op right) (.binary leftNode op rightNode stop) := by
  rw [Shows, Node.erased, ExprPlan.tree, hl, hr]

lemma isAtom_right (plan : ExprPlan) : isAtom BinaryOp.maxPrecedence true plan = true := by
  cases plan with
  | binary left op right =>
    have hle := (precedence_bounds op).2
    by_cases hmax : op.precedence = BinaryOp.maxPrecedence
    · exact parens_iff.2 ⟨by decide, .inr ⟨rfl, hmax⟩⟩
    · exact parens_iff.2 ⟨by decide, .inl ⟨hmax, by omega⟩⟩
  | _ => rfl

lemma reads_tightBinary (hl : Readable left) (hr : Readable right) (hwf : right.WF)
    (hop : op.precedence = BinaryOp.maxPrecedence) (hy : EndsAtom y)
    (hnext : ∀ n, Shows (.binary left op right) n → Reads (operandRest multiline n) y z P) :
    Reads (operand multiline) (left.pieces op.precedence tight false ++
      symbolPiece op.symbol :: (right.pieces op.precedence tight true ++ y)) z P := by
  rw [hop]
  refine hl.spine multiline tight _ z P (endsAtom_operator op _) fun n hn => ?_
  refine reads_operandNext hop (right.head_ne hwf (by decide) _ _ _ _)
    (hr.atom _ tight true y (isAtom_right right) hy) fun m stop hm => ?_
  exact hnext _ (shows_binary hn hm stop)

/-- An operand is an atomic expression or an operation of the highest precedence. -/
def isOperand (outer : Nat) (right : Bool) : ExprPlan → Bool
  | .binary left op r => isAtom outer right (.binary left op r) || op.precedence == BinaryOp.maxPrecedence
  | _ => true

lemma isOperand_right (plan : ExprPlan) (op : BinaryOp) :
    isOperand op.precedence true plan = true := by
  cases plan with
  | binary left inner right =>
    have hpos := (precedence_bounds op).1
    rw [isOperand, Bool.or_eq_true, beq_iff_eq]
    by_cases hmax : inner.precedence = BinaryOp.maxPrecedence
    · exact .inr hmax
    · refine .inl (parens_iff.2 ⟨hpos, ?_⟩)
      by_cases hsame : inner.precedence = op.precedence
      · exact .inr ⟨rfl, hsame⟩
      · exact .inl ⟨hsame, fun h => hmax h.2⟩
  | _ => rfl

lemma reads_operandForm {plan : ExprPlan}
    (hatom : isAtom outer isRight plan = true →
      Reads atomic (plan.pieces outer tight isRight ++ y) y (Shows plan))
    (hspine : ∀ tight, (∀ n, Shows plan n → Reads (operandRest multiline n) y y (Shows plan)) →
      Reads (operand multiline) (plan.pieces BinaryOp.maxPrecedence tight false ++ y) y (Shows plan))
    (hform : isOperand outer isRight plan = true) (hy : EndsOperand multiline y) :
    Reads (operand multiline) (plan.pieces outer tight isRight ++ y) y (Shows plan) := by
  by_cases h : isAtom outer isRight plan = true
  · exact reads_operandOfAtom (hatom h) hy
  · cases plan with
    | binary left op right =>
      rw [isOperand, Bool.or_eq_true, beq_iff_eq] at hform
      have hmax := hform.resolve_left h
      obtain ⟨inner, hinner⟩ := pieces_of_bare h tight
      rw [hinner, ← pieces_left, hmax]
      refine hspine inner fun n hn => (reads_operandLast hy n).mono fun m hm => ?_
      rw [hm]
      exact hn
    | _ => exact absurd rfl h

lemma Readable.operand {plan : ExprPlan} (h : Readable plan)
    (hform : isOperand outer isRight plan = true) (hy : EndsOperand multiline y) :
    Reads (operand multiline) (plan.pieces outer tight isRight ++ y) y (Shows plan) :=
  reads_operandForm (fun ha => h.atom outer tight isRight y ha hy.atom)
    (fun inner hnext => h.spine multiline inner y y _ hy.atom hnext) hform hy

lemma reads_binary (hl : Readable left) (hr : Readable right) (hwfl : left.WF) (hwfr : right.WF)
    (hy : EndsExpression multiline y) :
    Reads (expression multiline) (left.pieces op.precedence tight false ++
      symbolPiece op.symbol :: (right.pieces op.precedence tight true ++ y)) y
      (Shows (.binary left op right)) := by
  have hle := (precedence_bounds op).2
  by_cases hmax : op.precedence = BinaryOp.maxPrecedence
  · refine reads_expressionOfOperand (left.head_ne hwfl (by decide) _ _ _ _) ?_ hy
    refine reads_tightBinary hl hr hwfr hmax hy.atom fun n hn => ?_
    refine (reads_operandLast hy.operand n).mono fun m hm => ?_
    rw [hm]
    exact hn
  · rw [expression_eq]
    refine hl.chain multiline op tight _ y _ (by omega) fun n hn => ?_
    have hright : Reads (operand multiline) (right.pieces op.precedence tight true ++ y) y
        (Shows right) := hr.operand (isOperand_right right op) hy.operand
    refine (reads_chainLast (right.head_ne hwfr (by decide) _ _ _ _) hright hy).mono ?_
    rintro m ⟨rightNode, stop, hm, rfl⟩
    exact shows_binary hn hm stop

lemma reads_parens (hl : Readable left) (hr : Readable right) (hwfl : left.WF) (hwfr : right.WF) :
    Reads atomic (inParens (left.pieces op.precedence tight false ++
      symbolPiece op.symbol :: right.pieces op.precedence tight true) ++ y) y
      (Shows (.binary left op right)) := by
  rw [inParens, List.cons_append, List.cons_append, List.append_assoc, List.append_assoc,
    List.cons_append]
  refine reads_atomic_head 8 rfl rfl (by decide) ?_
  refine (reads_take _).bind fun _ _ => ?_
  refine (reads_binary hl hr hwfl hwfr (endsExpression_closing (by simp) y)).bind fun n hn => ?_
  exact (reads_take _).bind fun _ _ => reads_pure hn

lemma readable_binary (hwf : (ExprPlan.binary left op right).WF) (hl : Readable left)
    (hr : Readable right) : Readable (.binary left op right) := by
  have hwfl : left.WF := by rw [ExprPlan.WF] at hwf; exact hwf.1
  have hwfr : right.WF := by rw [ExprPlan.WF] at hwf; exact hwf.2
  have hle := (precedence_bounds op).2
  have hatom (outer : Nat) (tight isRight : Bool) (y : List Piece)
      (h : isAtom outer isRight (.binary left op right) = true) :
      Reads atomic ((ExprPlan.binary left op right).pieces outer tight isRight ++ y) y
        (Shows (.binary left op right)) := by
    obtain ⟨inner, hinner⟩ := pieces_of_atom h tight
    rw [hinner]
    exact reads_parens hl hr hwfl hwfr
  have hspine (multiline tight : Bool) (y z : List Piece) (P : Node → Prop) (hy : EndsAtom y)
      (hnext : ∀ n, Shows (.binary left op right) n → Reads (operandRest multiline n) y z P) :
      Reads (operand multiline) ((ExprPlan.binary left op right).pieces BinaryOp.maxPrecedence tight
        false ++ y) z P := by
    by_cases hmax : op.precedence = BinaryOp.maxPrecedence
    · rw [← hmax, pieces_left, List.append_assoc]
      exact reads_tightBinary hl hr hwfr hmax hy hnext
    · have h : isAtom BinaryOp.maxPrecedence false (.binary left op right) = true :=
        parens_iff.2 ⟨by decide, .inl ⟨hmax, by omega⟩⟩
      rw [operand_eq]
      exact (hatom _ tight false y h).bind hnext
  refine ⟨fun outer tight right y h _ => hatom outer tight right y h, hspine, ?_, ?_⟩
  · intro multiline outer tight y z P houter hnext
    by_cases hform : isOperand outer.precedence false (.binary left op right) = true
    · have hy : EndsOperand multiline (symbolPiece outer.symbol :: y) := endsOperand_operator houter y
      refine reads_chainNext ((ExprPlan.binary left op right).head_ne hwf (by decide) _ _ _ _)
        (reads_operandForm (fun h => hatom _ tight false _ h)
          (fun inner hnext => hspine multiline inner _ _ _ hy.atom hnext) hform hy) rfl
        fun n stop hn => hnext n hn
    · -- an operation of the same precedence: the chain goes on
      rw [isOperand, Bool.or_eq_true, beq_iff_eq, not_or] at hform
      have hsame : op.precedence = outer.precedence := by
        have hpos := (precedence_bounds outer).1
        by_contra hne
        exact hform.1 (parens_iff.2 ⟨hpos, .inl ⟨hne, fun h => hform.2 h.2⟩⟩)
      rw [← hsame, pieces_left, List.append_assoc]
      refine hl.chain multiline op tight _ z P (by omega) fun n hn => ?_
      have hright : Reads (operand multiline) (right.pieces op.precedence tight true ++
          symbolPiece outer.symbol :: y) (symbolPiece outer.symbol :: y) (Shows right) :=
        hr.operand (isOperand_right right op) (endsOperand_operator houter y)
      refine reads_chainNext (right.head_ne hwfr (by decide) _ _ _ _) hright ?_
        fun m stop hm => hnext _ (shows_binary hn hm stop)
      simp [mixes, hsame]
  · intro multiline tight y hy
    have hbare : isAtom 0 false (.binary left op right) ≠ true := fun h =>
      absurd (parens_iff.1 h).1 (Nat.lt_irrefl 0)
    obtain ⟨inner, hinner⟩ := pieces_of_bare hbare tight
    rw [hinner, List.append_assoc]
    exact reads_binary hl hr hwfl hwfr hy

end Readable

end Parser

end DpLang
