import DpLang.Grammar.Expression
import DpLang.Proofs.Image

/-!
# Running parsers

What a parser made from others does on a cursor, and on which cursors it fails.
-/

namespace DpLang.Parser

variable {α β : Type} {c : Cursor} {p : Parser α} {kind : TokenKind}

lemma bind_run (p : Parser α) (f : α → Parser β) (c : Cursor) :
    (p >>= f) c =
      match p c with
      | .ok (a, next) => f a next
      | .error e => .error e := by
  change StateT.bind p f c = _
  unfold StateT.bind
  change (p c >>= fun x => f x.1 x.2) = _
  cases p c <;> rfl

lemma bind_of_ok {f : α → Parser β} {a : α} {d : Cursor} (h : p c = .ok (a, d)) :
    (p >>= f) c = f a d := by rw [bind_run, h]

lemma map_run (g : α → β) (p : Parser α) (c : Cursor) :
    (g <$> p) c =
      match p c with
      | .ok (a, next) => .ok (g a, next)
      | .error e => .error e := by
  change StateT.map g p c = _
  unfold StateT.map
  change (p c >>= fun x => pure (g x.1, x.2)) = _
  cases p c <;> rfl

lemma take_run (kind : TokenKind) (message : Text) (c : Cursor) :
    take kind message c =
      match c.skim kind with
      | (some t, next) => .ok (t, next)
      | (none, next) => .error (.rejected (.ofFault next.position (.unexpectedToken message))) := by
  unfold take Cursor.take
  rcases c.skim kind with ⟨_ | t, next⟩ <;> rfl

/-- The parser fails at the cursor. -/
def Rejects (p : Parser α) (c : Cursor) : Prop := ∃ report, p c = .error (.rejected report)

lemma Rejects.bind (h : Rejects p c) (f : α → Parser β) : Rejects (p >>= f) c := by
  obtain ⟨report, h⟩ := h
  exact ⟨report, by rw [bind_run, h]⟩

lemma rejects_bind_of_ok {f : α → Parser β} {a : α} {next : Cursor} (h : p c = .ok (a, next))
    (hf : Rejects (f a) next) : Rejects (p >>= f) c := by
  obtain ⟨report, hf⟩ := hf
  exact ⟨report, by rw [bind_run, h]; exact hf⟩

lemma rejects_reject (position : Position) (fault : Fault) :
    Rejects (reject position fault : Parser α) c := ⟨_, rfl⟩

lemma rest_of_peekKind (h : c.peekKind? = some kind) :
    ∃ t ts, c.settle.rest = t :: ts ∧ t.kind = kind := by
  rw [Cursor.peekKind?, Cursor.peek?] at h
  cases hr : c.settle.rest with
  | nil => rw [hr] at h; cases h
  | cons t ts => rw [hr] at h; exact ⟨t, ts, rfl, Option.some.inj h⟩

lemma skim_of_peekKind (h : c.peekKind? ≠ some kind) : c.skim kind = (none, c.settle) := by
  cases hr : c.settle.rest with
  | nil => exact Cursor.skim_of_nil hr kind
  | cons t ts =>
    refine Cursor.skim_of_ne hr (fun hk => h ?_)
    rw [Cursor.peekKind?, Cursor.peek?, hr, ← hk]
    rfl

lemma skip_of_peekKind (h : c.peekKind? ≠ some kind) : skip kind c = .ok (false, c.settle) := by
  change Except.ok ((c.skim kind).1.isSome, (c.skim kind).2) = _
  rw [skim_of_peekKind h]
  rfl

lemma rejects_take (h : c.peekKind? ≠ some kind) (message : Text) :
    Rejects (take kind message) c := by
  unfold Rejects
  rw [take_run, skim_of_peekKind h]
  exact ⟨_, rfl⟩

lemma firstAfter_cons_run (reports : List Report) (p : Parser α) (ps : List (Parser α))
    (c : Cursor) :
    firstAfter reports (p :: ps) c =
      match p c with
      | .ok result => .ok result
      | .error .stalled => .error .stalled
      | .error (.rejected report) => firstAfter (reports ++ [report]) ps c := rfl

lemma rejects_firstAfter_nil (reports : List Report) :
    Rejects (firstAfter reports ([] : List (Parser α))) c := by
  unfold Rejects
  rw [firstAfter]
  dsimp only
  split <;> exact ⟨_, rfl⟩

lemma firstAfter_cons_of_rejects (h : Rejects p c) (ps : List (Parser α)) (reports : List Report) :
    ∃ more, firstAfter reports (p :: ps) c = firstAfter more ps c := by
  obtain ⟨report, h⟩ := h
  exact ⟨reports ++ [report], by rw [firstAfter_cons_run, h]⟩

lemma firstAfter_cons_of_ok {ps : List (Parser α)} {a : α} {next : Cursor}
    (h : p c = .ok (a, next)) (reports : List Report) :
    firstAfter reports (p :: ps) c = .ok (a, next) := by
  rw [firstAfter_cons_run, h]

lemma firstAfter_append {ps : List (Parser α)} (h : ∀ p ∈ ps, Rejects p c) (qs : List (Parser α))
    (reports : List Report) :
    ∃ more, firstAfter reports (ps ++ qs) c = firstAfter more qs c := by
  induction ps generalizing reports with
  | nil => exact ⟨reports, rfl⟩
  | cons p ps ih =>
    obtain ⟨more, hmore⟩ :=
      firstAfter_cons_of_rejects (h p List.mem_cons_self) (ps ++ qs) reports
    obtain ⟨more', hmore'⟩ := ih (fun q hq => h q (List.mem_cons_of_mem _ hq)) more
    exact ⟨more', by rw [List.cons_append, hmore, hmore']⟩

lemma firstOf_of_ok {ps qs : List (Parser α)} {a : α} {next : Cursor}
    (hps : ∀ q ∈ ps, Rejects q c) (h : p c = .ok (a, next)) :
    firstOf (ps ++ p :: qs) c = .ok (a, next) := by
  obtain ⟨more, hmore⟩ := firstAfter_append hps (p :: qs) []
  rw [firstOf, hmore, firstAfter_cons_of_ok h]

lemma rejects_firstOf {ps : List (Parser α)} (h : ∀ p ∈ ps, Rejects p c) :
    Rejects (firstOf ps) c := by
  obtain ⟨more, hmore⟩ := firstAfter_append h [] []
  rw [List.append_nil] at hmore
  unfold Rejects firstOf
  rw [hmore]
  exact rejects_firstAfter_nil more

lemma membersWithin_run (atEnd : Parser Bool) (member : Parser (Option α)) (fuel : Nat) :
    membersWithin atEnd member (fuel + 1) =
      atEnd >>= fun ended =>
        if ended then pure []
        else member >>= fun found =>
          membersWithin atEnd member fuel >>= fun others => pure (found.toList ++ others) := by
  rw [membersWithin]

/-- An operator that is not of the highest precedence is given back with the line ends in front of
it. -/
lemma tightOperator?_run (multiline : Bool) (c : Cursor) :
    tightOperator? multiline c =
      match (skipNewlinesIf multiline >>= fun _ => infixOperator?) c with
      | .ok (some op, next) =>
        if op.precedence = BinaryOp.maxPrecedence then .ok (some op, next) else .ok (none, c)
      | .ok (none, _) => .ok (none, c)
      | .error e => .error e := by
  unfold tightOperator?
  rw [bind_of_ok (p := get) (a := c) (d := c) rfl, bind_run, bind_run]
  rcases skipNewlinesIf multiline c with e | ⟨_, next⟩
  · rfl
  dsimp only
  rw [bind_run]
  rcases infixOperator? next with e | ⟨_ | op, next'⟩
  · rfl
  · rfl
  · dsimp only
    by_cases h : op.precedence = BinaryOp.maxPrecedence
    · rw [if_pos h, if_pos h]; rfl
    · rw [if_neg h, if_neg h]; rfl

/-- An operand joined with the operands before it. -/
def joined (before : Option (Node × BinaryOp)) (right : Node) (stop : Position) : Node :=
  match before with
  | none => right
  | some (left, op) => .binary left op right stop

/-- Does an operator have another precedence than the one before it? -/
def mixes (before : Option (Node × BinaryOp)) (op : BinaryOp) : Bool :=
  before.any fun (_, previous) => op.precedence ≠ previous.precedence

lemma chainAfter_succ (operand : Parser Node) (multiline : Bool) (fuel : Nat)
    (before : Option (Node × BinaryOp)) :
    chainAfter operand multiline (fuel + 1) before = (do
      skipNewlinesIf multiline
      let right ← operand
      let stop ← lastStop
      skipNewlinesIf multiline
      match ← infixOperator? with
      | none => return joined before right stop
      | some op =>
        if mixes before op then
          reject (← here) .mixedPrecedence
        chainAfter operand multiline fuel (some (joined before right stop, op))) := by
  rw [chainAfter]
  rfl

lemma assignerDereference?_run (c : Cursor) :
    assignerDereference? c =
      match c.skim (.symbol .parenLeft) with
      | (none, _) => .ok (none, c)
      | (some _, c₁) =>
        match c₁.skim .word with
        | (none, _) => .ok (none, c)
        | (some name, c₂) =>
          match c₂.skim (.symbol .parenRight) with
          | (none, _) => .ok (none, c)
          | (some _, c₃) => .ok (some (.assignerDereference c.position name.text c₃.last), c₃) := by
  unfold assignerDereference?
  rw [bind_of_ok (p := get) (a := c) (d := c) rfl]
  rw [bind_run]
  change (if (c.skim _).1.isSome then _ else _ : Parser (Option Node)) (c.skim _).2 = _
  rcases c.skim (.symbol .parenLeft) with ⟨_ | _, c₁⟩
  · rfl
  dsimp only
  change (skim _ >>= _) c₁ = _
  rw [bind_of_ok (p := skim .word) (a := (c₁.skim .word).1) (d := (c₁.skim .word).2) rfl]
  rcases c₁.skim .word with ⟨_ | name, c₂⟩
  · rfl
  dsimp only
  rw [bind_run]
  change (if (c₂.skim _).1.isSome then _ else _ : Parser (Option Node)) (c₂.skim _).2 = _
  rcases c₂.skim (.symbol .parenRight) with ⟨_ | _, c₃⟩ <;> rfl

lemma skipNewlinesWithin_run (i : Nat) (c : Cursor) :
    skipNewlinesWithin i c = .ok ((), c.pastLines i) := by
  induction i generalizing c with
  | zero => rfl
  | succ i ih =>
    rw [skipNewlinesWithin, bind_run]
    change (if (c.skim .newline).1.isSome then skipNewlinesWithin i else pure ()) (c.skim .newline).2 = _
    rw [Cursor.pastLines]
    rcases c.skim .newline with ⟨_ | t, next⟩
    · rfl
    · exact ih next

lemma symbol_of_ofSymbol? {symbol : Symbol} {op : UnaryOp}
    (h : UnaryOp.ofSymbol? symbol = some op) : op.symbol = symbol := by
  simpa using List.find?_some h

end DpLang.Parser
