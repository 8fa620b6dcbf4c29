import DpLang.Grammar.Declaration
import DpLang.Proofs.Progress

/-!
# Progress of the grammar

Every parser of the grammar makes progress on every token sequence. So each member of a list takes
a token, the recursion of types, expressions and blocks is on fewer tokens, and a file is parsed or
rejected.
-/

namespace DpLang.Parser

variable {n : Nat}

section Names

lemma agrees_nameParts {fuel : Nat} (h : n ≤ fuel) :
    Agrees n 1 (nameParts fuel) (nameParts fuel) := by
  induction fuel generalizing n with
  | zero =>
    obtain rfl : n = 0 := by omega
    exact agrees_none _ _
  | succ fuel ih =>
    refine (agrees_take _ _).andThen fun word => ?_
    refine agrees_skipThen ?_ (agrees_pure _)
    exact (ih (by omega)).zero.after fun names => agrees_pure _

lemma agrees_qualifiedName : Agrees n 1 qualifiedName qualifiedName := by
  refine (agrees_skip _).zero.after fun rooted => ?_
  exact (agrees_bounded fun m _ => agrees_nameParts le_rfl).andThen fun parts => agrees_pure _

lemma agrees_identifier : Agrees n 1 identifier identifier := by
  refine agrees_here.after fun start => agrees_qualifiedName.andThen fun name => ?_
  exact agrees_lastStop.after fun stop => agrees_pure _

lemma agrees_fieldNames {fuel : Nat} (h : n ≤ fuel) :
    Agrees n 0 (fieldNames fuel) (fieldNames fuel) := by
  induction fuel generalizing n with
  | zero =>
    obtain rfl : n = 0 := by omega
    exact agrees_none _ _
  | succ fuel ih =>
    refine agrees_skipThen ?_ (agrees_pure _)
    refine (agrees_take _ _).zero.after fun word => ?_
    exact (ih (by omega)).after fun names => agrees_pure _

lemma agrees_selectorOnly : Agrees n 1 selectorOnly selectorOnly := by
  refine agrees_here.after fun start => (agrees_take _ _).andThen fun word => ?_
  refine (agrees_bounded fun m _ => agrees_fieldNames le_rfl).after fun names => ?_
  exact agrees_lastStop.after fun stop => agrees_pure _

lemma agrees_selector : Agrees n 1 selector selector := by
  refine agrees_selectorOnly.andThen fun name => agrees_peekKind?.after fun kind => ?_
  split
  · exact agrees_rejectHere _
  · exact agrees_rejectHere _
  · exact agrees_rejectHere _
  · exact agrees_pure _

lemma agrees_typeFlags : Agrees n 0 typeFlags typeFlags := by
  refine (agrees_skip _).zero.after fun assigner => (agrees_skip _).zero.after fun pointer => ?_
  refine (agrees_skip _).zero.after fun reference => (agrees_skip _).zero.after fun shared => ?_
  exact agrees_pure _

def typeOf (type : Parser TypeExpr) : Parser TypeExpr := do
  let flags ← typeFlags
  if ← skip (.symbol .bracketLeft) then
    let item ← type
    let _ ← take (.symbol .bracketRight) "type: array closing bracket expected"
    return .array flags item
  return .named flags (← qualifiedName)

lemma agrees_typeOf {p q : Parser TypeExpr} (h : Agrees (n - 1) 1 p q) :
    Agrees n 1 (typeOf p) (typeOf q) := by
  refine agrees_typeFlags.after fun flags => agrees_skipThen ?_ ?_
  · refine h.zero.after fun item => ?_
    exact (agrees_take _ _).zero.after fun _ => agrees_pure _
  · exact agrees_qualifiedName.andThen fun name => agrees_pure _

end Names

section Recursion

variable {α : Type}

/-- A parser that gives up unless fewer than `n` tokens are left. -/
def below (n : Nat) (p : Parser α) : Parser α := fun c => if c.rest.length < n then p c else stall c

variable {within : Nat → Parser α} {step : Parser α → Parser α} {gain : α → Nat}

lemma agrees_within (hstep : ∀ n p q, Agrees (n - 1) gain p q → Agrees n gain (step p) (step q))
    (hwithin : ∀ fuel, within (fuel + 1) = step (within fuel)) {i l : Nat} (hi : n ≤ i)
    (hl : n ≤ l) : Agrees n gain (within i) (within l) := by
  have hdescends : Descends gain fun (p : Unit → Parser α) _ => step (p ()) :=
    fun n p q h _ => hstep n _ _ (h ())
  exact hdescends.agrees (fun fuel _ => within fuel) (fun fuel => funext fun _ => hwithin fuel) hi hl
    ()

lemma agrees_boundedWithin
    (hstep : ∀ n p q, Agrees (n - 1) gain p q → Agrees n gain (step p) (step q))
    (hwithin : ∀ fuel, within (fuel + 1) = step (within fuel)) :
    Agrees n gain (bounded within) (bounded within) :=
  agrees_bounded fun _ _ => agrees_within hstep hwithin le_rfl le_rfl

lemma bounded_eq_step
    (hstep : ∀ n p q, Agrees (n - 1) gain p q → Agrees n gain (step p) (step q))
    (hwithin : ∀ fuel, within (fuel + 1) = step (within fuel)) (c : Cursor) :
    bounded within c = step (below c.rest.length (bounded within)) c := by
  have hinner : Agrees c.rest.length gain (within c.rest.length)
      (below c.rest.length (bounded within)) := by
    intro d hd
    rw [below, if_pos hd]
    exact agrees_within hstep hwithin hd le_rfl d (Nat.lt_succ_self _)
  change within (c.rest.length + 1) c = _
  rw [hwithin]
  exact (hstep (c.rest.length + 1) _ _ hinner c (Nat.lt_succ_self _)).1

end Recursion

lemma type_step (fuel : Nat) : typeWithin (fuel + 1) = typeOf (typeWithin fuel) := rfl

lemma agrees_type : Agrees n 1 type type :=
  agrees_boundedWithin (fun _ _ _ h => agrees_typeOf h) type_step

lemma agrees_typeSpec : Agrees n 1 typeSpec typeSpec := by
  refine agrees_here.after fun start => agrees_type.andThen fun type => ?_
  exact agrees_lastStop.after fun stop => agrees_pure _

section Expressions

variable {multiline : Bool} {p q : Parser Node}

lemma agrees_infixOperator? :
    Agrees n (fun o => o.isSome.toNat) infixOperator? infixOperator? := by
  refine agrees_of_moves fun c => ?_
  unfold infixOperator?
  rw [bind_of_ok (p := peekKind?) rfl]
  cases hkind : c.peekKind? with
  | none => exact .settle c
  | some kind =>
    match kind with
    | .symbol s =>
      cases hop : BinaryOp.ofSymbol? s with
      | none => simp only [hop]; exact .settle c
      | some op =>
        obtain ⟨d, hskip, hahead⟩ := skip_of_peeked ((Cursor.peekKind?_settle c).trans hkind)
        simp only [hop]
        rw [bind_of_ok hskip]
        exact (Cursor.Ahead.settle c).trans hahead
    | .space | .newline | .comment | .keyword _ | .word | .integer | .character | .string =>
      exact .settle c

lemma agrees_tightOperator? :
    Agrees n (fun o => o.isSome.toNat) (tightOperator? multiline) (tightOperator? multiline) := by
  refine agrees_of_moves fun c => ?_
  have h : Agrees (c.rest.length + 1) (fun o => o.isSome.toNat)
      (skipNewlinesIf multiline >>= fun _ => infixOperator?)
      (skipNewlinesIf multiline >>= fun _ => infixOperator?) :=
    (agrees_skipNewlinesIf multiline).after fun _ => agrees_infixOperator?
  have hmoves := (h c (Nat.lt_succ_self _)).2
  rw [tightOperator?_run]
  generalize (skipNewlinesIf multiline >>= fun _ => infixOperator?) c = x at hmoves
  match x with
  | .error (.rejected _) => trivial
  | .error .stalled => exact hmoves
  | .ok (none, d) => exact .refl c
  | .ok (some op, d) =>
    by_cases hop : op.precedence = BinaryOp.maxPrecedence
    · simp only [if_pos hop]
      exact hmoves
    · simp only [if_neg hop]
      exact .refl c

/-- Joins `left` with the atomic expression behind it, and with the others by `rest`. -/
def operandStep (atomic : Parser Node) (multiline : Bool) (rest : Node → Parser Node) (left : Node) :
    Parser Node := do
  match ← tightOperator? multiline with
  | none => return left
  | some op =>
    skipNewlinesIf multiline
    let right ← atomic
    rest (.binary left op right (← lastStop))

lemma agrees_operandStep (h : Agrees n 1 p q) {rest rest' : Node → Parser Node}
    (hr : ∀ left, Agrees (n - 1) 0 (rest left) (rest' left)) (left : Node) :
    Agrees n 0 (operandStep p multiline rest left) (operandStep q multiline rest' left) := by
  refine agrees_tightOperator?.bind fun op => ?_
  cases op with
  | none => exact agrees_pure left
  | some op =>
    refine (agrees_skipNewlinesIf multiline).after fun _ => ?_
    refine (h.shorter (Nat.sub_le n 1)).zero.after fun right => ?_
    exact agrees_lastStop.after fun stop => hr _

lemma operandAfter_succ (atomic : Parser Node) (left : Node) (fuel : Nat) :
    operandAfter atomic multiline left (fuel + 1) =
      operandStep atomic multiline (fun left => operandAfter atomic multiline left fuel) left := by
  rw [operandAfter]
  rfl

lemma agrees_operandAfter (h : Agrees n 1 p q) (left : Node) {fuel : Nat} (hfuel : n ≤ fuel) :
    Agrees n 0 (operandAfter p multiline left fuel) (operandAfter q multiline left fuel) := by
  induction fuel generalizing n left with
  | zero =>
    obtain rfl : n = 0 := by omega
    exact agrees_none _ _
  | succ fuel ih =>
    rw [operandAfter_succ, operandAfter_succ]
    refine agrees_operandStep h (fun left => ?_) left
    exact ih (h.shorter (Nat.sub_le n 1)) left (by omega)

lemma agrees_operandOf (h : Agrees n 1 p q) :
    Agrees n 1 (operandOf p multiline) (operandOf q multiline) := by
  refine h.andThen fun first => agrees_bounded fun m hm => ?_
  exact agrees_operandAfter (h.shorter (by omega)) first le_rfl

/-- Joins an operand to `before`, and the other operands by `rest`. -/
def chainStep (operand : Parser Node) (multiline : Bool)
    (rest : Option (Node × BinaryOp) → Parser Node) (before : Option (Node × BinaryOp)) :
    Parser Node := do
  skipNewlinesIf multiline
  let right ← operand
  let stop ← lastStop
  skipNewlinesIf multiline
  match ← infixOperator? with
  | none => return joined before right stop
  | some op =>
    if mixes before op then
      reject (← here) .mixedPrecedence
    rest (some (joined before right stop, op))

lemma agrees_chainStep (h : Agrees n 1 p q) {rest rest' : Option (Node × BinaryOp) → Parser Node}
    (hr : ∀ before, Agrees (n - 1) 1 (rest before) (rest' before))
    (before : Option (Node × BinaryOp)) :
    Agrees n 1 (chainStep p multiline rest before) (chainStep q multiline rest' before) := by
  refine (agrees_skipNewlinesIf multiline).after fun _ => h.andThen fun right => ?_
  refine agrees_lastStop.after fun stop => (agrees_skipNewlinesIf multiline).after fun _ => ?_
  refine agrees_infixOperator?.zero.after fun op => ?_
  cases op with
  | none => exact agrees_pure _
  | some op =>
    cases hmix : mixes before op with
    | true =>
      simp only [hmix, if_true]
      exact agrees_here.after fun _ => agrees_of_moves fun _ => trivial
    | false =>
      simp only [hmix, Bool.false_eq_true, if_false]
      exact (hr _).zero

lemma agrees_chainAfter (h : Agrees n 1 p q) (before : Option (Node × BinaryOp)) {fuel : Nat}
    (hfuel : n ≤ fuel) :
    Agrees n 1 (chainAfter p multiline fuel before) (chainAfter q multiline fuel before) := by
  induction fuel generalizing n before with
  | zero =>
    obtain rfl : n = 0 := by omega
    exact agrees_none _ _
  | succ fuel ih =>
    rw [chainAfter_succ, chainAfter_succ]
    refine agrees_chainStep h (fun before => ?_) before
    exact ih (h.shorter (Nat.sub_le n 1)) before (by omega)

lemma agrees_expressionOf (h : Agrees n 1 p q) :
    Agrees n 1 (expressionOf p multiline) (expressionOf q multiline) :=
  agrees_bounded fun _ hm => agrees_chainAfter (agrees_operandOf (h.shorter hm)) none le_rfl

lemma agrees_assignerDereference? :
    Agrees n (fun o => o.isSome.toNat) assignerDereference? assignerDereference? := by
  refine agrees_of_moves fun c => ?_
  rw [assignerDereference?_run]
  have hopen := ahead_skim (.symbol .parenLeft) c
  generalize c.skim (.symbol .parenLeft) = x at hopen
  match x with
  | (none, _) => exact .refl c
  | (some _, c₁) =>
    have hname := ahead_skim .word c₁
    dsimp only
    generalize c₁.skim .word = y at hname
    match y with
    | (none, _) => exact .refl c
    | (some _, c₂) =>
      have hclose := ahead_skim (.symbol .parenRight) c₂
      dsimp only
      generalize c₂.skim (.symbol .parenRight) = z at hclose
      match z with
      | (none, _) => exact .refl c
      | (some _, c₃) => exact ((hopen.trans hname).trans hclose).mono (show 1 ≤ 3 by omega)

lemma agrees_listValueOf (h : Agrees n 1 p q) : Agrees n 1 (listValueOf p) (listValueOf q) := by
  refine agrees_assignerDereference?.bind fun node => ?_
  cases node with
  | some node => exact agrees_pure node
  | none =>
    refine (agrees_expressionOf h).andThen fun value => agrees_skipThen (agrees_pure _) ?_
    refine agrees_peekKind?.after fun kind => ?_
    split
    · exact agrees_rejectHereBind _ _
    · exact agrees_pure _

lemma agrees_argumentsOf (h : Agrees n 1 p q) : Agrees n 1 (argumentsOf p) (argumentsOf q) :=
  (agrees_membersUntil _ (.cons agrees_comma (.cons (agrees_member agrees_comment)
    (.cons (agrees_member (agrees_listValueOf h)) (.cons agrees_newline .nil))))).mono
    (fun _ => Nat.le_add_left _ _) le_rfl

lemma agrees_targetArgumentsOf (h : Agrees n 1 p q) :
    Agrees n 1 (targetArgumentsOf p) (targetArgumentsOf q) :=
  (agrees_membersUntil _ (.cons agrees_comma
    (.cons (agrees_member (agrees_listValueOf h)) (.cons agrees_newline .nil)))).mono
    (fun _ => Nat.le_add_left _ _) le_rfl

lemma agrees_callWith {args args' : Parser (List Node)} (h : Agrees (n - 1) 1 args args') :
    Agrees n 1 (callWith args) (callWith args') := by
  refine agrees_selectorOnly.andThen fun name => (agrees_take _ _).zero.after fun _ => ?_
  refine h.zero.after fun args => agrees_lastStop.after fun stop => agrees_pure _

lemma agrees_indexOf (h : Agrees (n - 1) 1 p q) : Agrees n 1 (indexOf p) (indexOf q) := by
  refine agrees_selectorOnly.andThen fun name => (agrees_take _ _).zero.after fun _ => ?_
  refine (agrees_expressionOf h).zero.after fun subscript => ?_
  refine (agrees_take _ _).zero.after fun _ => ?_
  exact agrees_lastStop.after fun stop => agrees_pure _

lemma agrees_prefixedOf (h : Agrees (n - 1) 1 p q) (kind : TokenKind) (op : PrefixOp)
    (message : Text) : Agrees n 1 (prefixedOf p kind op message) (prefixedOf q kind op message) := by
  refine (agrees_take _ _).andThen fun token => h.zero.after fun operand => ?_
  exact agrees_lastStop.after fun stop => agrees_pure _

/-- An operator in front of an operand is taken, as the next token has been looked at. -/
lemma agrees_unaryOf (h : Agrees (n - 1) 1 p q) : Agrees n 1 (unaryOf p) (unaryOf q) := by
  refine agrees_here.after fun start => fun c hc => ?_
  rw [bind_of_ok (p := peekKind?) rfl, bind_of_ok (p := peekKind?) rfl]
  cases hkind : c.peekKind? with
  | none => exact ⟨rfl, trivial⟩
  | some kind =>
    match kind with
    | .symbol s =>
      cases hop : UnaryOp.ofSymbol? s with
      | none => simp only [hop]; exact ⟨trivial, trivial⟩
      | some op =>
        rw [← symbol_of_ofSymbol? hop] at hkind
        obtain ⟨d, hskip, hahead⟩ := skip_of_peeked ((Cursor.peekKind?_settle c).trans hkind)
        have hd := (Cursor.Ahead.settle c).trans hahead
        have hlength := hd.length
        have hrest : Agrees (n - 1) 0
            (p >>= fun operand => lastStop >>= fun stop =>
              pure (Node.prefixed start (.unary op) operand stop))
            (q >>= fun operand => lastStop >>= fun stop =>
              pure (Node.prefixed start (.unary op) operand stop)) :=
          h.zero.after fun operand => agrees_lastStop.after fun stop => agrees_pure _
        simp only [hop]
        rw [bind_of_ok hskip, bind_of_ok hskip]
        obtain ⟨hsame, hmoves⟩ := hrest d (by omega)
        exact ⟨hsame, hmoves.after hd⟩
    | .space | .newline | .comment | .keyword _ | .word | .integer | .character | .string =>
      exact ⟨rfl, trivial⟩

lemma agrees_literal (kind : TokenKind) (literalKind : LiteralKind) (message : Text) :
    Agrees n 1 (literal kind literalKind message) (literal kind literalKind message) :=
  (agrees_take _ _).andThen fun _ => agrees_lastStop.after fun _ => agrees_pure _

lemma agrees_boolean (keyword : Keyword) (value : Bool) (message : Text) :
    Agrees n 1 (boolean keyword value message) (boolean keyword value message) :=
  (agrees_take _ _).andThen fun _ => agrees_lastStop.after fun _ => agrees_pure _

lemma agrees_nil : Agrees n 1 nil nil :=
  (agrees_take _ _).andThen fun _ => agrees_lastStop.after fun _ => agrees_pure _

lemma agrees_zero : Agrees n 1 zero zero :=
  (agrees_take _ _).andThen fun _ => (agrees_take _ _).zero.after fun _ =>
    agrees_lastStop.after fun _ => agrees_pure _

lemma agrees_parenthesizedOf (h : Agrees (n - 1) 1 p q) :
    Agrees n 1 (parenthesizedOf p) (parenthesizedOf q) := by
  refine (agrees_take _ _).andThen fun _ => (agrees_expressionOf h).zero.after fun value => ?_
  exact (agrees_take _ _).zero.after fun _ => agrees_pure _

lemma agrees_atomicOf (h : Agrees (n - 1) 1 p q) : Agrees n 1 (atomicOf p) (atomicOf q) := by
  refine agrees_firstOf ?_
  refine .cons (agrees_prefixedOf h _ _ _) (.cons (agrees_callWith (agrees_argumentsOf h)) ?_)
  refine .cons (agrees_literal _ _ _) (.cons (agrees_prefixedOf h _ _ _) ?_)
  refine .cons (agrees_boolean _ _ _) (.cons (agrees_indexOf h) (.cons (agrees_literal _ _ _) ?_))
  refine .cons agrees_nil (.cons (agrees_parenthesizedOf h) (.cons (agrees_prefixedOf h _ _ _) ?_))
  refine .cons agrees_selector (.cons (agrees_literal _ _ _) (.cons (agrees_boolean _ _ _) ?_))
  exact .cons (agrees_unaryOf h) (.cons agrees_zero .nil)

lemma atomic_step (fuel : Nat) : atomicWithin (fuel + 1) = atomicOf (atomicWithin fuel) := rfl

lemma agrees_atomic : Agrees n 1 atomic atomic :=
  agrees_boundedWithin (fun _ _ _ h => agrees_atomicOf h) atomic_step

lemma agrees_expression : Agrees n 1 (expression multiline) (expression multiline) :=
  agrees_expressionOf agrees_atomic

lemma agrees_listValue : Agrees n 1 listValue listValue := agrees_listValueOf agrees_atomic

end Expressions

section Loops

variable {α : Type} {p : Parser (List α)} {atEnd : Parser Bool}
  {alternatives : List (Parser (Option α))} {closing : Symbol} {stops : List TokenKind}

/-- The list is read in a loop that gets further with each member and stops at the end of the
tokens. -/
structure IsLoop (p : Parser (List α)) (atEnd : Parser Bool)
    (alternatives : List (Parser (Option α))) : Prop where
  loop : p = members atEnd alternatives
  takes : ∀ q ∈ alternatives, ∀ c, Moves 1 c (q c)
  advances : ∀ q ∈ alternatives, ∀ c a d, q c = .ok (a, d) → c.index < d.index
  stops : ∀ fuel c, c.peek? = none →
    membersWithin atEnd (firstOf alternatives) (fuel + 1) c = .ok ([], c.settle) ∨
      Rejects (membersWithin atEnd (firstOf alternatives) (fuel + 1)) c

/-- What ends a list without parentheses. -/
def nakedEnd (stops : List TokenKind) : Parser Bool := do
  let kind ← peekKind?
  return endsNakedList kind || kind.any stops.contains

lemma index_lt_of_moves {q : Parser α} {c d : Cursor} {a : α} (h : Moves 1 c (q c))
    (hq : q c = .ok (a, d)) : c.index < d.index := by
  rw [hq] at h
  exact Cursor.Ahead.index h

lemma rejects_of_moves {q : Parser α} {c : Cursor} (h : Moves 1 c (q c)) (hc : c.peek? = none) :
    Rejects q c := by
  cases hq : q c with
  | ok result =>
    rw [hq] at h
    exact absurd hc (Cursor.Ahead.peek?_ne_none h)
  | error failure =>
    rw [hq] at h
    cases failure with
    | rejected report => exact ⟨report, hq⟩
    | stalled => exact absurd h id

lemma Agrees.moves {β : Type} {q : Parser β} {k : β → Nat} (h : ∀ n, Agrees n k q q) (c : Cursor) :
    Moves k c (q c) :=
  (h _ c (Nat.lt_succ_self _)).2

lemma isLoop_until (h : ∀ q ∈ alternatives, ∀ n, Agrees n 1 q q) :
    IsLoop (membersUntil closing alternatives) (skip (.symbol closing)) alternatives where
  loop := rfl
  takes q hq := Agrees.moves (h q hq)
  advances q hq c a d := index_lt_of_moves (Agrees.moves (h q hq) c)
  stops fuel c hc := by
    have hkind : c.peekKind? ≠ some (.symbol closing) := by
      simp [Cursor.peekKind?, hc]
    refine .inr ?_
    rw [membersWithin_run]
    refine rejects_bind_of_ok (skip_of_peekKind hkind) (Rejects.bind (rejects_firstOf ?_) _)
    intro q hq
    refine rejects_of_moves (Agrees.moves (h q hq) _) ?_
    rw [Cursor.peek?, Cursor.settle_settle]
    exact hc

lemma isLoop_of_ended (h : ∀ q ∈ alternatives, ∀ n, Agrees n 1 q q)
    (hend : ∀ c : Cursor, c.peek? = none → atEnd c = .ok (true, c.settle)) :
    IsLoop (members atEnd alternatives) atEnd alternatives where
  loop := rfl
  takes q hq := Agrees.moves (h q hq)
  advances q hq c a d := index_lt_of_moves (Agrees.moves (h q hq) c)
  stops fuel c hc := by
    refine .inl ?_
    rw [membersWithin_run, bind_of_ok (hend c hc)]
    rfl

lemma isLoop_naked (h : ∀ q ∈ alternatives, ∀ n, Agrees n 1 q q) :
    IsLoop (nakedMembers alternatives stops) (nakedEnd stops) alternatives := by
  refine isLoop_of_ended h fun c hc => ?_
  have hkind : c.peekKind? = none := by rw [Cursor.peekKind?, hc]; rfl
  change (peekKind? >>= _) c = _
  rw [bind_of_ok (p := peekKind?) rfl, hkind]
  rfl

lemma isLoop_commas {q : Parser α} (h : ∀ n, Agrees n 1 q q) :
    IsLoop (nakedMembers [comma, member q] stops) (nakedEnd stops) [comma, member q] := by
  refine isLoop_naked ?_
  simp only [List.forall_mem_cons]
  exact ⟨fun _ => agrees_comma, fun n => agrees_member (h n), by simp⟩

lemma isLoop_lines {q : Parser Node} (h : ∀ n, Agrees n 1 q q) :
    IsLoop (membersUntil closing [comma, member comment, member q, newline]) (skip (.symbol closing))
      [comma, member comment, member q, newline] := by
  refine isLoop_until ?_
  simp only [List.forall_mem_cons]
  exact ⟨fun _ => agrees_comma, fun _ => agrees_member agrees_comment, fun n => agrees_member (h n),
    fun _ => agrees_newline, by simp⟩

lemma IsLoop.forall₂ (h : IsLoop p atEnd alternatives) :
    List.Forall₂ (Agrees n 1) alternatives alternatives :=
  List.forall₂_same.2 fun q hq => agrees_of_moves (h.takes q hq)

lemma IsLoop.agrees_until (h : IsLoop p (skip (.symbol closing)) alternatives) :
    Agrees n (fun xs => xs.length + 1) p p := by
  rw [h.loop]
  exact agrees_membersUntil closing h.forall₂

lemma IsLoop.agrees_naked (h : IsLoop p (nakedEnd stops) alternatives) : Agrees n List.length p p := by
  rw [h.loop]
  exact agrees_nakedMembers h.forall₂ stops

end Loops

section Statements

lemma isLoop_nakedNames : IsLoop nakedNames (nakedEnd []) [comma, member identifier] :=
  isLoop_commas fun _ => agrees_identifier

lemma isLoop_namesUntilParen :
    IsLoop namesUntilParen (skip (.symbol .parenRight))
      [comma, member comment, member identifier, newline] := isLoop_lines fun _ => agrees_identifier

lemma agrees_importedNames : Agrees n List.length importedNames importedNames := by
  refine agrees_skipThen ?_ isLoop_nakedNames.agrees_naked
  exact isLoop_namesUntilParen.agrees_until.mono (fun names => by omega) le_rfl

lemma agrees_importedPath :
    Agrees n (fun path => (!path.isEmpty).toNat) importedPath importedPath := by
  refine agrees_skimThen (fun token => ?_) (agrees_gain rfl)
  dsimp only
  split
  · exact agrees_rejectBind _ _ _
  · refine agrees_gain ?_
    cases token.text <;> rfl

lemma agrees_importWithKeyword : Agrees n 1 importWithKeyword importWithKeyword := by
  refine agrees_here.after fun start => agrees_skipThen ?_ (agrees_rejectBind _ _ _)
  refine agrees_importedPath.zero.after fun path => agrees_importedNames.zero.after fun names => ?_
  exact agrees_lastStop.after fun stop => agrees_pure _

/-- A member of an import list has a path or names, and each takes a token. -/
lemma agrees_importEntry : Agrees n 1 importEntry importEntry := by
  refine agrees_here.after fun start => (agrees_skip _).zero.after fun _ => ?_
  refine agrees_importedPath.bind fun path => agrees_importedNames.bind fun names => ?_
  split
  · exact agrees_rejectHereBind _ _
  · next hsome =>
    refine agrees_lastStop.after fun stop => agrees_gain ?_
    cases path <;> cases names <;> simp at hsome ⊢

lemma isLoop_nakedValues : IsLoop nakedValues (nakedEnd []) [comma, member listValue] :=
  isLoop_commas fun _ => agrees_listValue

lemma agrees_nakedValues : Agrees n 0 nakedValues nakedValues := isLoop_nakedValues.agrees_naked.zero

lemma isLoop_valuesUntilParen :
    IsLoop valuesUntilParen (skip (.symbol .parenRight))
      [comma, member comment, member listValue, newline] := isLoop_lines fun _ => agrees_listValue

lemma agrees_delimitedValues : Agrees n 0 delimitedValues delimitedValues := by
  refine isLoop_valuesUntilParen.agrees_until.zero.after fun values => ?_
  refine agrees_peekKind?.after fun kind => ?_
  split
  · exact agrees_rejectHereBind _ _
  · exact agrees_pure _

lemma agrees_values : Agrees n 0 values values :=
  agrees_skipThen agrees_delimitedValues agrees_nakedValues

lemma agrees_assignerDereference : Agrees n 1 assignerDereference assignerDereference := by
  refine agrees_assignerDereference?.bind fun node => ?_
  cases node with
  | some node => exact agrees_pure node
  | none => exact agrees_rejectHere _

lemma agrees_targetCall : Agrees n 1 (targetCallOf atomic) (targetCallOf atomic) :=
  agrees_callWith (agrees_targetArgumentsOf agrees_atomic)

lemma isLoop_targets :
    IsLoop targets (nakedEnd [.symbol .assign])
      [member assignerDereference, member (targetCallOf atomic), comma, member (indexOf atomic),
        member selector] := by
  refine isLoop_naked ?_
  simp only [List.forall_mem_cons]
  exact ⟨fun _ => agrees_member agrees_assignerDereference, fun _ => agrees_member agrees_targetCall,
    fun _ => agrees_comma, fun _ => agrees_member (agrees_indexOf agrees_atomic),
    fun _ => agrees_member agrees_selector, by simp⟩

lemma agrees_assign : Agrees n 1 assign assign := by
  refine isLoop_targets.agrees_naked.bind fun targets => ?_
  cases targets with
  | nil => exact agrees_rejectHere _
  | cons first others =>
    refine (agrees_take _ _).zero.after fun _ => agrees_values.after fun values => ?_
    split
    · exact agrees_rejectHereBind _ _
    · refine agrees_lastStop.after fun stop => agrees_gain ?_
      simp

lemma agrees_jump (keyword : Keyword) (kind : Jump) (message : Text) :
    Agrees n 1 (jump keyword kind message) (jump keyword kind message) :=
  (agrees_take _ _).andThen fun _ => agrees_lastStop.after fun _ => agrees_pure _

lemma agrees_expressionStatement : Agrees n 1 expressionStatement expressionStatement := by
  refine agrees_expression.andThen fun value => agrees_peekKind?.after fun kind => ?_
  split
  · exact agrees_rejectHereBind _ _
  · exact agrees_pure _

lemma agrees_returnValues : Agrees n 1 returnValues returnValues := by
  refine (agrees_take _ _).andThen fun keyword => ?_
  refine (agrees_firstOf (.cons agrees_nakedValues (.cons ?_ .nil))).after fun values => ?_
  · exact (agrees_take _ _).zero.after fun _ => agrees_delimitedValues
  · exact agrees_lastStop.after fun stop => agrees_pure _

lemma isLoop_variableNames :
    IsLoop variableNames (nakedEnd [])
      [comma, member (return (← take .word "variable name expected").text)] :=
  isLoop_commas fun _ => (agrees_take _ _).andThen fun _ => agrees_pure _

lemma agrees_variableNames : Agrees n 0 variableNames variableNames :=
  isLoop_variableNames.agrees_naked.zero

lemma agrees_variableDecl : Agrees n 1 variableDecl variableDecl := by
  refine agrees_here.after fun start => agrees_variableNames.after fun names => ?_
  refine (agrees_take _ _).andThen fun _ => agrees_skipThen ?_ ?_
  · exact agrees_lastStop.after fun stop => agrees_pure _
  · exact agrees_typeSpec.zero.after fun type => agrees_lastStop.after fun stop => agrees_pure _

lemma agrees_variableDef : Agrees n 1 variableDef variableDef := by
  refine agrees_here.after fun start => agrees_variableNames.after fun names => ?_
  refine (agrees_take _ _).andThen fun _ => agrees_values.after fun values => ?_
  exact agrees_lastStop.after fun stop => agrees_pure _

variable {p q : Parser (List Node)}

lemma agrees_blockOf (h : Agrees (n - 1) 1 p q) : Agrees n 1 (blockOf p) (blockOf q) := by
  refine (agrees_take _ _).andThen fun opening => h.zero.after fun body => ?_
  exact agrees_lastStop.after fun stop => agrees_pure _

lemma agrees_forLoopOf (h : Agrees (n - 1) 1 p q) : Agrees n 1 (forLoopOf p) (forLoopOf q) := by
  refine (agrees_take _ _).andThen fun keyword => agrees_skimThen (fun opening => ?_) ?_
  · refine (h.shorter (by omega)).zero.after fun body => ?_
    exact agrees_lastStop.after fun stop => agrees_pure _
  · refine agrees_expression.zero.after fun test => (agrees_take _ _).zero.after fun opening => ?_
    exact h.zero.after fun body => agrees_lastStop.after fun stop => agrees_pure _

lemma agrees_ifElseOf (h : Agrees (n - 1) 1 p q) : Agrees n 1 (ifElseOf p) (ifElseOf q) := by
  refine (agrees_take _ _).andThen fun keyword => agrees_expression.zero.after fun test => ?_
  refine (agrees_take _ _).zero.after fun opening => h.zero.after fun thenBody => ?_
  refine agrees_lastStop.after fun thenStop => agrees_skipThen ?_ ?_
  · refine (agrees_take _ _).zero.after fun _ => (h.shorter (by omega)).zero.after fun elseBody => ?_
    exact agrees_lastStop.after fun stop => agrees_pure _
  · exact agrees_lastStop.after fun stop => agrees_pure _

lemma agrees_statementsOf (h : Agrees (n - 1) 1 p q) :
    Agrees n 1 (statementsOf p) (statementsOf q) := by
  refine (agrees_membersUntil _ ?_).mono (fun _ => Nat.le_add_left _ _) le_rfl
  refine .cons (agrees_member agrees_assign) (.cons (agrees_member (agrees_blockOf h)) ?_)
  refine .cons (agrees_member (agrees_jump _ _ _)) (.cons (agrees_member agrees_comment) ?_)
  refine .cons (agrees_member (agrees_jump _ _ _)) ?_
  refine .cons (agrees_member agrees_expressionStatement) ?_
  refine .cons (agrees_member (agrees_forLoopOf h)) (.cons (agrees_member (agrees_ifElseOf h)) ?_)
  refine .cons (agrees_member agrees_importWithKeyword) (.cons agrees_newline ?_)
  refine .cons (agrees_member agrees_returnValues) (.cons agrees_semicolon ?_)
  exact .cons (agrees_member agrees_variableDecl) (.cons (agrees_member agrees_variableDef) .nil)

lemma statements_step (fuel : Nat) :
    statementsWithin (fuel + 1) = statementsOf (statementsWithin fuel) := rfl

lemma agrees_statements : Agrees n 1 statements statements :=
  agrees_boundedWithin (fun _ _ _ h => agrees_statementsOf h) statements_step

end Statements

section Declarations

lemma agrees_definedName (what : Text) : Agrees n 1 (definedName what) (definedName what) := by
  refine (agrees_take _ _).andThen fun token => ?_
  split
  · exact (agrees_take _ _).zero.after fun name => agrees_pure _
  · exact agrees_pure _

lemma agrees_constantDef : Agrees n 1 constantDef constantDef := by
  refine (agrees_definedName _).andThen fun name => (agrees_take _ _).zero.after fun _ => ?_
  exact agrees_expression.zero.after fun value => agrees_lastStop.after fun stop => agrees_pure _

lemma agrees_parameter : Agrees n 1 parameter parameter := by
  refine (agrees_take _ _).andThen fun name => agrees_skipThen ?_ ?_
  · exact agrees_lastStop.after fun stop => agrees_pure _
  · refine agrees_typeSpec.zero.after fun type => (agrees_skip _).zero.after fun _ => ?_
    exact agrees_lastStop.after fun stop => agrees_pure _

lemma agrees_resultType :
    Agrees n 1 (Node.typeSpec <$> typeSpec) (Node.typeSpec <$> typeSpec) :=
  agrees_typeSpec.map _ fun _ => le_rfl

lemma isLoop_nakedResults :
    IsLoop nakedResults (nakedEnd []) [comma, member (.typeSpec <$> typeSpec)] :=
  isLoop_commas fun _ => agrees_resultType

lemma isLoop_resultsUntilParen :
    IsLoop resultsUntilParen (skip (.symbol .parenRight))
      [comma, member comment, newline, member (.typeSpec <$> typeSpec)] := by
  refine isLoop_until ?_
  simp only [List.forall_mem_cons]
  exact ⟨fun _ => agrees_comma, fun _ => agrees_member agrees_comment, fun _ => agrees_newline,
    fun _ => agrees_member agrees_resultType, by simp⟩

lemma agrees_results :
    Agrees n 0 (firstOf [nakedResults, delimitedResults]) (firstOf [nakedResults, delimitedResults]) := by
  refine agrees_firstOf (.cons isLoop_nakedResults.agrees_naked.zero (.cons ?_ .nil))
  exact (agrees_take _ _).zero.after fun _ => isLoop_resultsUntilParen.agrees_until.zero

lemma isLoop_parameters :
    IsLoop parameters (skip (.symbol .parenRight))
      [comma, member comment, newline, member parameter] := by
  refine isLoop_until ?_
  simp only [List.forall_mem_cons]
  exact ⟨fun _ => agrees_comma, fun _ => agrees_member agrees_comment, fun _ => agrees_newline,
    fun _ => agrees_member agrees_parameter, by simp⟩

lemma agrees_publicKeyword : Agrees n 0 publicKeyword publicKeyword := by
  refine agrees_peek?.after fun token => ?_
  cases token with
  | none => exact agrees_pure _
  | some token =>
    dsimp only
    split
    · exact (agrees_skip _).zero
    · exact agrees_pure _

lemma agrees_functionName : Agrees n 1 functionName functionName := by
  refine agrees_skipThen ?_ ?_
  · refine (agrees_take _ _).zero.after fun receiver => agrees_typeSpec.zero.after fun type => ?_
    refine (agrees_take _ _).zero.after fun _ => (agrees_skim _).zero.after fun name => ?_
    exact agrees_pure _
  · exact (agrees_take _ _).andThen fun name => agrees_pure _

lemma agrees_functionDef : Agrees n 1 functionDef functionDef := by
  refine agrees_here.after fun start => agrees_publicKeyword.after fun isPublic => ?_
  refine agrees_functionName.andThen fun name => (agrees_take _ _).zero.after fun _ => ?_
  refine isLoop_parameters.agrees_until.zero.after fun params => ?_
  refine agrees_lastStop.after fun paramsStop => ?_
  dsimp only
  split
  · exact agrees_of_moves fun _ => trivial
  · refine agrees_results.after fun results => (agrees_take _ _).zero.after fun opening => ?_
    refine agrees_statements.zero.after fun body => ?_
    exact agrees_lastStop.after fun stop => agrees_pure _

lemma agrees_fieldAccess : Agrees n 0 fieldAccess fieldAccess := by
  refine agrees_skimThen (fun token => ?_) (agrees_pure _)
  dsimp only
  split
  · exact agrees_pure _
  · exact agrees_reject _ _

lemma agrees_field : Agrees n 1 field field := by
  refine (agrees_take _ _).andThen fun name => agrees_typeSpec.zero.after fun type => ?_
  exact agrees_fieldAccess.after fun access => agrees_lastStop.after fun stop => agrees_pure _

lemma isLoop_fields :
    IsLoop fields (skip (.symbol .braceRight))
      [comma, member comment, member field, member importWithKeyword, newline, semicolon] := by
  refine isLoop_until ?_
  simp only [List.forall_mem_cons]
  exact ⟨fun _ => agrees_comma, fun _ => agrees_member agrees_comment,
    fun _ => agrees_member agrees_field, fun _ => agrees_member agrees_importWithKeyword,
    fun _ => agrees_newline, fun _ => agrees_semicolon, by simp⟩

lemma agrees_typeDef : Agrees n 1 typeDef typeDef := by
  refine (agrees_definedName _).andThen fun name => agrees_fieldAccess.after fun access => ?_
  refine (agrees_take _ _).zero.after fun _ => ?_
  refine isLoop_fields.agrees_until.zero.after fun fields => ?_
  exact agrees_lastStop.after fun stop => agrees_pure _

lemma agrees_pathImport : Agrees n 1 pathImport pathImport := by
  refine (agrees_take _ _).andThen fun token => ?_
  split
  · exact agrees_rejectBind _ _ _
  · exact agrees_lastStop.after fun stop => agrees_pure _

lemma isLoop_nakedPaths : IsLoop nakedPaths (nakedEnd []) [comma, member pathImport] :=
  isLoop_commas fun _ => agrees_pathImport

lemma isLoop_pathsUntilParen :
    IsLoop pathsUntilParen (skip (.symbol .parenRight))
      [comma, member comment, member pathImport, newline] := isLoop_lines fun _ => agrees_pathImport

lemma isLoop_importEntries :
    IsLoop importEntries (skip (.symbol .braceRight))
      [comma, member comment, member importEntry, newline, semicolon] := by
  refine isLoop_until ?_
  simp only [List.forall_mem_cons]
  exact ⟨fun _ => agrees_comma, fun _ => agrees_member agrees_comment,
    fun _ => agrees_member agrees_importEntry, fun _ => agrees_newline, fun _ => agrees_semicolon,
    by simp⟩

lemma agrees_importMembers : Agrees n 0 importMembers importMembers := by
  refine agrees_peekKind?.after fun kind => ?_
  split
  · exact isLoop_nakedPaths.agrees_naked.zero
  · refine agrees_skipThen isLoop_pathsUntilParen.agrees_until.zero ?_
    exact (agrees_take _ _).zero.after fun _ => isLoop_importEntries.agrees_until.zero

lemma agrees_importList : Agrees n 1 importList importList := by
  refine (agrees_take _ _).andThen fun keyword => agrees_importMembers.after fun imports => ?_
  exact agrees_lastStop.after fun stop => agrees_pure _

lemma isLoop_file :
    IsLoop file atEnd
      [member comment, member constantDef, member functionDef, member importList, newline, semicolon,
        member typeDef] := by
  refine isLoop_of_ended ?_ fun c hc => ?_
  · simp only [List.forall_mem_cons]
    exact ⟨fun _ => agrees_member agrees_comment, fun _ => agrees_member agrees_constantDef,
      fun _ => agrees_member agrees_functionDef, fun _ => agrees_member agrees_importList,
      fun _ => agrees_newline, fun _ => agrees_semicolon, fun _ => agrees_member agrees_typeDef,
      by simp⟩
  · change (peek? >>= _) c = _
    rw [bind_of_ok (p := peek?) rfl, hc]
    rfl

lemma agrees_file : Agrees n 0 file file := by
  have hend : Agrees n (fun b => if b then 0 else 0) atEnd atEnd :=
    agrees_peek?.after fun _ => agrees_gain (by simp)
  rw [isLoop_file.loop]
  exact (agrees_members hend isLoop_file.forall₂).zero

end Declarations

section Termination

variable {α : Type}

/-- A parser that calls itself only where fewer tokens are left: a call elsewhere would stall, and
no parser goes on after that. -/
structure IsGuarded (p : Parser α) (step : Parser α → Parser α) : Prop where
  fixed : p = step p
  guarded : ∀ c, p c = step (below c.rest.length p) c
  ends : ∀ c, p c ≠ .error .stalled

lemma not_stalled_of_moves {k : α → Nat} {c : Cursor} {x : Except Failure (α × Cursor)}
    (h : Moves k c x) : x ≠ .error .stalled := by
  rintro rfl
  exact h

lemma agrees_below {p : Parser α} {k : α → Nat} (h : ∀ n, Agrees n k p p) :
    Agrees n k (below n p) p := by
  intro c hc
  rw [below, if_pos hc]
  exact h n c hc

lemma isGuarded_bounded {within : Nat → Parser α} {step : Parser α → Parser α} {gain : α → Nat}
    (hstep : ∀ n p q, Agrees (n - 1) gain p q → Agrees n gain (step p) (step q))
    (hwithin : ∀ fuel, within (fuel + 1) = step (within fuel)) :
    IsGuarded (bounded within) step where
  fixed := by
    have hself (n : Nat) := agrees_boundedWithin (n := n) hstep hwithin
    funext c
    rw [bounded_eq_step hstep hwithin]
    exact (hstep (c.rest.length + 1) _ _ (agrees_below hself) c (Nat.lt_succ_self _)).1
  guarded := bounded_eq_step hstep hwithin
  ends c := not_stalled_of_moves (Agrees.moves (fun _ => agrees_boundedWithin hstep hwithin) c)

lemma isLoop_arguments :
    IsLoop (argumentsOf atomic) (skip (.symbol .parenRight))
      [comma, member comment, member (listValueOf atomic), newline] :=
  isLoop_lines fun _ => agrees_listValue

lemma isLoop_targetArguments :
    IsLoop (targetArgumentsOf atomic) (skip (.symbol .parenRight))
      [comma, member (listValueOf atomic), newline] := by
  refine isLoop_until ?_
  simp only [List.forall_mem_cons]
  exact ⟨fun _ => agrees_comma, fun _ => agrees_member agrees_listValue, fun _ => agrees_newline,
    by simp⟩

lemma isLoop_statements :
    IsLoop (statementsOf statements) (skip (.symbol .braceRight))
      [member assign, member (blockOf statements), member breakLoop, member comment,
        member continueLoop, member expressionStatement, member (forLoopOf statements),
        member (ifElseOf statements), member importWithKeyword, newline, member returnValues,
        semicolon, member variableDecl, member variableDef] := by
  refine isLoop_until ?_
  simp only [List.forall_mem_cons]
  exact ⟨fun _ => agrees_member agrees_assign, fun _ => agrees_member (agrees_blockOf agrees_statements),
    fun _ => agrees_member (agrees_jump _ _ _), fun _ => agrees_member agrees_comment,
    fun _ => agrees_member (agrees_jump _ _ _), fun _ => agrees_member agrees_expressionStatement,
    fun _ => agrees_member (agrees_forLoopOf agrees_statements),
    fun _ => agrees_member (agrees_ifElseOf agrees_statements),
    fun _ => agrees_member agrees_importWithKeyword, fun _ => agrees_newline,
    fun _ => agrees_member agrees_returnValues, fun _ => agrees_semicolon,
    fun _ => agrees_member agrees_variableDecl, fun _ => agrees_member agrees_variableDef, by simp⟩

/-- All lists of the grammar, with what ends each of them and what its members are. -/
structure ListsAdvance : Prop where
  fileMembers : IsLoop file atEnd
    [member comment, member constantDef, member functionDef, member importList, newline, semicolon,
      member typeDef]
  blockMembers : IsLoop (statementsOf statements) (skip (.symbol .braceRight))
    [member assign, member (blockOf statements), member breakLoop, member comment,
      member continueLoop, member expressionStatement, member (forLoopOf statements),
      member (ifElseOf statements), member importWithKeyword, newline, member returnValues,
      semicolon, member variableDecl, member variableDef]
  callArguments : IsLoop (argumentsOf atomic) (skip (.symbol .parenRight))
    [comma, member comment, member (listValueOf atomic), newline]
  targetArguments : IsLoop (targetArgumentsOf atomic) (skip (.symbol .parenRight))
    [comma, member (listValueOf atomic), newline]
  assignTargets : IsLoop targets (nakedEnd [.symbol .assign])
    [member assignerDereference, member (targetCallOf atomic), comma, member (indexOf atomic),
      member selector]
  bareValues : IsLoop nakedValues (nakedEnd []) [comma, member listValue]
  valuesInParens : IsLoop valuesUntilParen (skip (.symbol .parenRight))
    [comma, member comment, member listValue, newline]
  declaredNames : IsLoop variableNames (nakedEnd [])
    [comma, member (return (← take .word "variable name expected").text)]
  bareNames : IsLoop nakedNames (nakedEnd []) [comma, member identifier]
  namesInParens : IsLoop namesUntilParen (skip (.symbol .parenRight))
    [comma, member comment, member identifier, newline]
  functionParameters : IsLoop parameters (skip (.symbol .parenRight))
    [comma, member comment, newline, member parameter]
  bareResults : IsLoop nakedResults (nakedEnd []) [comma, member (.typeSpec <$> typeSpec)]
  resultsInParens : IsLoop resultsUntilParen (skip (.symbol .parenRight))
    [comma, member comment, newline, member (.typeSpec <$> typeSpec)]
  typeMembers : IsLoop fields (skip (.symbol .braceRight))
    [comma, member comment, member field, member importWithKeyword, newline, semicolon]
  barePaths : IsLoop nakedPaths (nakedEnd []) [comma, member pathImport]
  pathsInParens : IsLoop pathsUntilParen (skip (.symbol .parenRight))
    [comma, member comment, member pathImport, newline]
  importsInBraces : IsLoop importEntries (skip (.symbol .braceRight))
    [comma, member comment, member importEntry, newline, semicolon]

lemma listsAdvance : ListsAdvance where
  fileMembers := isLoop_file
  blockMembers := isLoop_statements
  callArguments := isLoop_arguments
  targetArguments := isLoop_targetArguments
  assignTargets := isLoop_targets
  bareValues := isLoop_nakedValues
  valuesInParens := isLoop_valuesUntilParen
  declaredNames := isLoop_variableNames
  bareNames := isLoop_nakedNames
  namesInParens := isLoop_namesUntilParen
  functionParameters := isLoop_parameters
  bareResults := isLoop_nakedResults
  resultsInParens := isLoop_resultsUntilParen
  typeMembers := isLoop_fields
  barePaths := isLoop_nakedPaths
  pathsInParens := isLoop_pathsUntilParen
  importsInBraces := isLoop_importEntries

/-- Parsing ends on every token sequence: each member of a list takes a token, types, expressions
and blocks hold each other only where fewer tokens are left, and so a file is parsed or rejected. -/
theorem parse_makes_progress :
    ListsAdvance ∧ IsGuarded type typeOf ∧ IsGuarded atomic atomicOf ∧
      IsGuarded statements statementsOf ∧
      ∀ tokens, (∃ nodes, parse tokens = .ok nodes) ∨
        ∃ report, parse tokens = .error (.rejected report) := by
  refine ⟨listsAdvance, isGuarded_bounded (fun _ _ _ h => agrees_typeOf h) type_step,
    isGuarded_bounded (fun _ _ _ h => agrees_atomicOf h) atomic_step,
    isGuarded_bounded (fun _ _ _ h => agrees_statementsOf h) statements_step, fun tokens => ?_⟩
  have hmoves := Agrees.moves (fun _ => agrees_file) (.ofTokens tokens)
  change (∃ nodes, (file (.ofTokens tokens)).map Prod.fst = .ok nodes) ∨
    ∃ report, (file (.ofTokens tokens)).map Prod.fst = .error (.rejected report)
  generalize file (.ofTokens tokens) = x at hmoves
  match x with
  | .ok (nodes, _) => exact .inl ⟨nodes, rfl⟩
  | .error (.rejected report) => exact .inr ⟨report, rfl⟩
  | .error .stalled => exact absurd hmoves id

end Termination

end DpLang.Parser
