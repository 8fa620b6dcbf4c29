import DpLang.Proofs.Pairing

/-!
# Names, types and expressions in pairs

The parsers of names, types and expressions make pairs with themselves, whatever the steps that they
are given.
-/

namespace DpLang.Parser

open Pairing (Lawful LawfulLines)

variable {α : Type} {P : Pairing} [P.LawfulLines] {k : Nat}

lemma move_texts (s : Shift) (ts : List Text) : move s ts = ts := List.map_id ts

section Lines

variable {β : Type} {p : Parser α}

lemma failsAtLine_of_rejects (h : ∀ c, c.peekKind? = some .newline → Rejects p c) :
    FailsAtLine p := fun c hc => (h c hc).imp' _ fun _ => id

lemma FailsAtLine.bind (h : FailsAtLine p) (f : α → Parser β) : FailsAtLine (p >>= f) := by
  intro c hc
  obtain ⟨failure, hp⟩ := h c hc
  exact ⟨failure, by rw [bind_run, hp]⟩

lemma startsNone_of_line {c : Cursor} (h : c.peekKind? = some .newline) {kinds : List TokenKind}
    (hk : .newline ∉ kinds) : c.StartsNone kinds := by
  intro kind hmem heq
  rw [h] at heq
  exact hk (Option.some.inj heq ▸ hmem)

lemma failsAtLine_take {kind : TokenKind} (hk : kind ≠ .newline) (message : Text)
    (f : Token → Parser α) : FailsAtLine (take kind message >>= f) :=
  failsAtLine_of_rejects fun _ h => (rejects_take (by rw [h]; simpa using hk.symm) _).bind _

lemma failsAtLine_comma : FailsAtLine (comma : Parser (Option α)) :=
  failsAtLine_take (by decide) _ _

lemma FailsAtLine.member (h : FailsAtLine p) : FailsAtLine (member p) := h.bind _

lemma failsAtLine_comment : FailsAtLine (member comment) := (failsAtLine_take (by decide) _ _).member

lemma failsAtLine_listValueOf {atomic : Parser Node} (h : FailsAtLine atomic) :
    FailsAtLine (member (listValueOf atomic)) := by
  have hexpression : FailsAtLine (expressionOf atomic false) := by
    intro c hc
    change ∃ failure, (skipNewlinesIf false >>= _) c = .error failure
    rw [bind_of_ok (a := ()) (d := c) rfl]
    exact (h.bind _).bind _ c hc
  refine FailsAtLine.member fun c hc => ?_
  rw [listValueOf, bind_of_ok (assignerDereference?_of_peekKind (by rw [hc]; decide))]
  exact hexpression.bind _ c hc

end Lines

section Names

lemma pairs_nameParts (i j : Nat) : P.Pairs k k (nameParts i) (nameParts j) := by
  induction i generalizing j with
  | zero => exact pairs_stall
  | succ i ih =>
    cases j with
    | zero => exact pairs_stalls
    | succ j =>
      refine pairs_take rfl fun t ht => ?_
      rw [ht]
      exact pairs_skip rfl ((ih j).bind fun _ => pairs_pure rfl) (pairs_pure rfl)

lemma pairs_qualifiedName : P.Pairs k k qualifiedName qualifiedName := by
  refine pairs_skipped rfl fun rooted => (pairs_bounded pairs_nameParts).bind fun parts => ?_
  refine pairs_pure ?_
  rw [move_texts, move_texts]

lemma pairs_identifier : P.Pairs k k identifier identifier := by
  refine pairs_here.bind fun start => pairs_qualifiedName.bind fun name => pairs_stop fun stop => ?_
  rw [move_texts]
  rfl

lemma pairs_fieldNames (i j : Nat) : P.Pairs k k (fieldNames i) (fieldNames j) := by
  induction i generalizing j with
  | zero => exact pairs_stall
  | succ i ih =>
    cases j with
    | zero => exact pairs_stalls
    | succ j =>
      refine pairs_skip rfl (pairs_take rfl fun t ht => ?_) (pairs_pure rfl)
      rw [ht]
      exact (ih j).bind fun _ => pairs_pure rfl

lemma pairs_selectorOnly : P.Pairs k k selectorOnly selectorOnly := by
  refine pairs_here.bind fun start => pairs_take rfl fun t ht => ?_
  refine (pairs_bounded pairs_fieldNames).bind fun names => pairs_stop fun stop => ?_
  rw [ht, move_texts]
  rfl

lemma pairs_selector : P.Pairs k k selector selector := by
  refine pairs_selectorOnly.bind fun name => pairs_peekKind? fun kind => ?_
  split
  · exact pairs_rejectHere
  · exact pairs_rejectHere
  · exact pairs_rejectHere
  · exact pairs_pure rfl

lemma pairs_typeFlags : P.Pairs k k typeFlags typeFlags :=
  pairs_skipped rfl fun _ => pairs_skipped rfl fun _ => pairs_skipped rfl fun _ =>
    pairs_skipped rfl fun _ => pairs_pure rfl

lemma pairs_typeWithin (i j : Nat) : P.Pairs k k (typeWithin i) (typeWithin j) := by
  induction i generalizing j k with
  | zero => exact pairs_stall
  | succ i ih =>
    cases j with
    | zero => exact pairs_stalls
    | succ j =>
      refine pairs_typeFlags.bind fun flags => pairs_skip rfl ?_ ?_
      · exact (ih j).bind fun item => pairs_take rfl fun _ _ => pairs_pure rfl
      · refine pairs_qualifiedName.bind fun name => pairs_pure ?_
        rw [move_texts]
        rfl

lemma pairs_typeSpec : P.Pairs k k typeSpec typeSpec :=
  pairs_here.bind fun _ => (pairs_bounded pairs_typeWithin).bind fun _ => pairs_stop fun _ => rfl

end Names

section Operators

variable {p q : Parser Node} {multiline : Bool}

lemma depth_of_binary {symbol : Symbol} {op : BinaryOp} (h : BinaryOp.ofSymbol? symbol = some op)
    (k : Nat) : (TokenKind.symbol symbol).depth k = some k := by
  have hop : op.symbol = symbol := by simpa using List.find?_some h
  subst hop
  cases op <;> rfl

lemma pairs_infixOperator? : P.Pairs k k infixOperator? infixOperator? := by
  refine pairs_peekKind? fun kind => ?_
  split
  · next symbol =>
    cases hop : BinaryOp.ofSymbol? symbol with
    | none => exact pairs_pure rfl
    | some op => exact pairs_skipped (depth_of_binary hop k) fun _ => pairs_pure rfl
  · exact pairs_pure rfl

lemma pairs_skipNewlinesIf (hk : multiline = true → 0 < k) :
    P.Pairs k k (skipNewlinesIf multiline) (skipNewlinesIf multiline) := by
  cases multiline with
  | false => exact pairs_pure rfl
  | true =>
    obtain ⟨l, rfl⟩ : ∃ l, k = l + 1 := ⟨k - 1, by have := hk rfl; omega⟩
    exact LawfulLines.skipNewlines l

lemma pairs_tightOperator? (hk : multiline = true → 0 < k) :
    P.Pairs k k (tightOperator? multiline) (tightOperator? multiline) := by
  intro c d hcd
  have h : P.Pairs k k (skipNewlinesIf multiline >>= fun _ => infixOperator?)
      (skipNewlinesIf multiline >>= fun _ => infixOperator?) :=
    (pairs_skipNewlinesIf hk).bind fun _ => pairs_infixOperator?
  replace h := h hcd
  rw [tightOperator?_run, tightOperator?_run]
  generalize (skipNewlinesIf multiline >>= fun _ => infixOperator?) c = x at h
  generalize (skipNewlinesIf multiline >>= fun _ => infixOperator?) d = y at h
  cases h with
  | stalled y => exact .stalled _
  | stalls x => exact .stalls _
  | rejected r r' => exact .rejected r r'
  | @done o c' d' h =>
    cases o with
    | none => exact .done hcd
    | some op =>
      change P.Tally k (if op.precedence = _ then _ else _)
        (if op.precedence = _ then .ok (some op, d') else _)
      split_ifs
      · exact .done h
      · exact .done hcd

lemma pairs_operandAfter (h : P.Pairs k k p q) (hk : multiline = true → 0 < k) (left : Node)
    (i j : Nat) : P.Pairs k k (operandAfter p multiline left i)
      (operandAfter q multiline (move P.shift left) j) := by
  induction i generalizing j left with
  | zero => exact pairs_stall
  | succ i ih =>
    cases j with
    | zero => exact pairs_stalls
    | succ j =>
      refine (pairs_tightOperator? hk).bind fun op => ?_
      cases op with
      | none => exact pairs_pure rfl
      | some op =>
        refine (pairs_skipNewlinesIf hk).bind fun _ => h.bind fun right => ?_
        exact pairs_lastStop.bind fun stop => ih (.binary left op right stop) j

lemma pairs_operandOf (h : P.Pairs k k p q) (hk : multiline = true → 0 < k) :
    P.Pairs k k (operandOf p multiline) (operandOf q multiline) :=
  h.bind fun first => pairs_bounded fun i j => pairs_operandAfter h hk first i j

lemma pairs_chainAfter (h : P.Pairs k k p q) (hk : multiline = true → 0 < k)
    (before : Option (Node × BinaryOp)) (i j : Nat) :
    P.Pairs k k (chainAfter p multiline i before)
      (chainAfter q multiline j (move P.shift before)) := by
  induction i generalizing j before with
  | zero => exact pairs_stall
  | succ i ih =>
    cases j with
    | zero => exact pairs_stalls
    | succ j =>
      rw [chainAfter_succ, chainAfter_succ]
      refine (pairs_skipNewlinesIf hk).bind fun _ => h.bind fun right => ?_
      refine pairs_lastStop.bind fun stop => (pairs_skipNewlinesIf hk).bind fun _ => ?_
      have hjoined : joined (move P.shift before) (move P.shift right) (move P.shift stop) =
          move P.shift (joined before right stop) := by
        rcases before with _ | ⟨left, op⟩ <;> rfl
      have hmixes (op : BinaryOp) : mixes (move P.shift before) op = mixes before op := by
        rcases before with _ | ⟨left, op⟩ <;> rfl
      simp only [hjoined, hmixes]
      refine pairs_infixOperator?.bind fun op => ?_
      cases op with
      | none => exact pairs_pure rfl
      | some op =>
        change P.Pairs k k (if mixes before op = true then _ else _)
          (if mixes before op = true then _ else _)
        split_ifs
        · exact pairs_here.bind fun _ => pairs_rejectBind
        · exact ih (some (joined before right stop, op)) j

lemma pairs_expressionOf (h : P.Pairs k k p q) (hk : multiline = true → 0 < k) :
    P.Pairs k k (expressionOf p multiline) (expressionOf q multiline) :=
  pairs_bounded fun i j => pairs_chainAfter (pairs_operandOf h hk) hk none i j

lemma pairs_assignerDereference? : P.Pairs k k assignerDereference? assignerDereference? := by
  intro c d h
  rw [assignerDereference?_run, assignerDereference?_run]
  obtain ⟨_, c₁, d₁, -, hc, hd, h₁⟩ | ⟨hc, hd⟩ :=
    skim_cases (.symbol .parenLeft) (l := k + 1) h (by decide) rfl
  swap
  · rw [hc, hd]
    exact .done h
  rw [hc, hd]
  dsimp only
  obtain ⟨name, c₂, d₂, hname, hc, hd, h₂⟩ | ⟨hc, hd⟩ :=
    skim_cases .word (l := k + 1) h₁ (by decide) rfl
  swap
  · rw [hc, hd]
    exact .done h
  rw [hc, hd]
  dsimp only
  obtain ⟨_, c₃, d₃, -, hc, hd, h₃⟩ | ⟨hc, hd⟩ :=
    skim_cases (.symbol .parenRight) (l := k) h₂ (by decide) rfl
  swap
  · rw [hc, hd]
    exact .done h
  rw [hc, hd]
  dsimp only
  rw [Lawful.position h, Lawful.last h₃, Token.move_text _ name (by rw [hname]; decide)]
  exact .done h₃

end Operators

section Expressions

variable {p q : Parser Node}

lemma pairs_listValueOf (h : P.Pairs k k p q) : P.Pairs k k (listValueOf p) (listValueOf q) := by
  refine pairs_assignerDereference?.bind fun found => ?_
  cases found with
  | some node => exact pairs_pure rfl
  | none =>
    refine (pairs_expressionOf h (by simp)).bind fun value => ?_
    exact pairs_skip rfl (pairs_pure rfl) (pairs_unless rfl)

lemma pairs_callWith {args args' : Parser (List Node)} (h : P.Pairs (k + 1) k args args') :
    P.Pairs k k (callWith args) (callWith args') := by
  refine pairs_selectorOnly.bind fun name => pairs_take rfl fun _ _ => h.bind fun args => ?_
  exact pairs_stop fun _ => by simp only [move, Node.moved, Node.movedAll_eq_map]

lemma pairs_callOf (h : P.Pairs (k + 1) (k + 1) p q) (hp : FailsAtLine p) (hq : FailsAtLine q) :
    P.Pairs k k (callOf p) (callOf q) := by
  refine pairs_callWith (LawfulLines.membersUntil rfl (.cons pairs_comma
    (.cons (pairs_member pairs_comment) (.cons (pairs_member (pairs_listValueOf h)) .nil))) .nil ?_ ?_)
  · simp only [List.forall_mem_cons]
    exact ⟨failsAtLine_comma, failsAtLine_comment, failsAtLine_listValueOf hp, by simp⟩
  · simp only [List.forall_mem_cons]
    exact ⟨failsAtLine_comma, failsAtLine_comment, failsAtLine_listValueOf hq, by simp⟩

lemma pairs_targetCallOf (h : P.Pairs (k + 1) (k + 1) p q) (hp : FailsAtLine p)
    (hq : FailsAtLine q) : P.Pairs k k (targetCallOf p) (targetCallOf q) := by
  refine pairs_callWith (LawfulLines.membersUntil rfl (.cons pairs_comma
    (.cons (pairs_member (pairs_listValueOf h)) .nil)) .nil ?_ ?_)
  · simp only [List.forall_mem_cons]
    exact ⟨failsAtLine_comma, failsAtLine_listValueOf hp, by simp⟩
  · simp only [List.forall_mem_cons]
    exact ⟨failsAtLine_comma, failsAtLine_listValueOf hq, by simp⟩

lemma pairs_indexOf (h : P.Pairs (k + 1) (k + 1) p q) : P.Pairs k k (indexOf p) (indexOf q) :=
  pairs_selectorOnly.bind fun _ => pairs_take rfl fun _ _ =>
    (pairs_expressionOf h fun _ => k.succ_pos).bind fun _ => pairs_take rfl fun _ _ =>
      pairs_stop fun _ => rfl

lemma pairs_prefixedOf (h : P.Pairs k k p q) {kind : TokenKind} (hl : kind.depth k = some k)
    {op : PrefixOp} {message : Text} :
    P.Pairs k k (prefixedOf p kind op message) (prefixedOf q kind op message) :=
  pairs_take hl fun _ _ => h.bind fun _ => pairs_stop fun _ => rfl

lemma depth_of_unary (op : UnaryOp) (k : Nat) : (TokenKind.symbol op.symbol).depth k = some k := by
  cases op <;> rfl

lemma pairs_unaryOf (h : P.Pairs k k p q) : P.Pairs k k (unaryOf p) (unaryOf q) := by
  refine pairs_here.bind fun start => pairs_peekKind? fun kind => ?_
  dsimp only
  split
  · exact pairs_reject
  · next op _ =>
    exact pairs_skipped (depth_of_unary op k) fun _ => h.bind fun _ => pairs_stop fun _ => rfl

lemma pairs_literal {kind : TokenKind} (hl : kind.depth k = some k) {literalKind : LiteralKind}
    {message : Text} :
    P.Pairs k k (literal kind literalKind message) (literal kind literalKind message) := by
  refine pairs_take hl fun t ht => pairs_stop fun _ => ?_
  rw [ht]
  rfl

lemma pairs_boolean {keyword : Keyword} {value : Bool} {message : Text} :
    P.Pairs k k (boolean keyword value message) (boolean keyword value message) :=
  pairs_take rfl fun _ _ => pairs_stop fun _ => rfl

lemma pairs_nil : P.Pairs k k nil nil := pairs_take rfl fun _ _ => pairs_stop fun _ => rfl

lemma pairs_zero : P.Pairs k k zero zero :=
  pairs_take rfl fun _ _ => pairs_take rfl fun _ _ => pairs_stop fun _ => rfl

lemma pairs_parenthesizedOf (h : P.Pairs (k + 1) (k + 1) p q) :
    P.Pairs k k (parenthesizedOf p) (parenthesizedOf q) :=
  pairs_take rfl fun _ _ => (pairs_expressionOf h fun _ => k.succ_pos).bind fun _ =>
    pairs_take rfl fun _ _ => pairs_pure rfl

lemma pairs_atomicOf (h : ∀ k, P.Pairs k k p q) (hp : FailsAtLine p) (hq : FailsAtLine q) :
    P.Pairs k k (atomicOf p) (atomicOf q) := by
  refine pairs_firstOf ?_
  refine .cons (pairs_prefixedOf (h k) rfl) (.cons (pairs_callOf (h _) hp hq) ?_)
  refine .cons (pairs_literal rfl) (.cons (pairs_prefixedOf (h k) rfl) ?_)
  refine .cons pairs_boolean (.cons (pairs_indexOf (h _)) (.cons (pairs_literal rfl) ?_))
  refine .cons pairs_nil (.cons (pairs_parenthesizedOf (h _)) ?_)
  refine .cons (pairs_prefixedOf (h k) rfl) (.cons pairs_selector (.cons (pairs_literal rfl) ?_))
  exact .cons pairs_boolean (.cons (pairs_unaryOf (h k)) (.cons pairs_zero .nil))

lemma failsAtLine_atomicWithin (i : Nat) : FailsAtLine (atomicWithin i) := by
  cases i with
  | zero => exact fun _ _ => ⟨_, rfl⟩
  | succ i =>
    exact failsAtLine_of_rejects fun _ h => rejects_atomicWithin (startsNone_of_line h (by decide)) i

lemma pairs_atomicWithin (i j : Nat) : P.Pairs k k (atomicWithin i) (atomicWithin j) := by
  induction i generalizing j k with
  | zero => exact pairs_stall
  | succ i ih =>
    cases j with
    | zero => exact pairs_stalls
    | succ j =>
      exact pairs_atomicOf (fun _ => ih j) (failsAtLine_atomicWithin i) (failsAtLine_atomicWithin j)

lemma pairs_atomic : P.Pairs k k atomic atomic := pairs_bounded pairs_atomicWithin

lemma failsAtLine_atomic : FailsAtLine atomic :=
  failsAtLine_of_rejects fun _ h => rejects_atomic (startsNone_of_line h (by decide))

lemma pairs_expression : P.Pairs k k (expression false) (expression false) :=
  pairs_expressionOf pairs_atomic (by simp)

lemma pairs_listValue : P.Pairs k k listValue listValue := pairs_listValueOf pairs_atomic

end Expressions

end DpLang.Parser
